import LinuxSystemPrograms.ForkJoin
import LinuxSystemPrograms.ProdConsProb
import LinuxSystemPrograms.Transcripts
import Mathlib.Data.List.Induction

/-!
# What `prod_cons_prob.c` can print

The program with its `main`, and the lines of both threads in the order in which they appear.
A `printf` reads `data` first and shows its line later; in between, and between an unlock and
the `printf` behind it, the other thread can run through its section, so that the lines are
not those of a hand-over one at a time. `accept` says exactly which they are. Reads and writes
of `data` are atomic.
-/

namespace LinuxSystemPrograms.ProdConsTranscript

open LinuxSystemPrograms.ForkJoin
open LinuxSystemPrograms.ProdConsProb
open LinuxSystemPrograms.Transcripts
open LinuxSystemPrograms.Transition

set_option autoImplicit false

inductive Line where
  | producer (value : Int)
  | consumer (value : Int)
  deriving DecidableEq, Repr

/-- `producerHolds` and `consumerHolds` are what the thread's `printf` has read from `data` and
not shown yet. -/
structure Talking where
  base : State
  producerHolds : Option Int
  consumerHolds : Option Int
  deriving DecidableEq, Repr

namespace Talking

/-- In `base` a `printf` is the reading of its argument. -/
def afterBase (state : Talking) (label : Label) (next : State) : Talking where
  base := next
  producerHolds :=
    if label = .producer ∧ state.base.producer.place = .print then some state.base.data
    else state.producerHolds
  consumerHolds :=
    if label = .consumer ∧ state.base.consumer.place = .print then some state.base.data
    else state.consumerHolds

/-- A thread that has read its argument shows its line next. -/
def advance (iterations : Nat) (state : Talking) (label : Label) : Option Talking :=
  if label = .producer ∧ state.producerHolds ≠ none then some { state with producerHolds := none }
  else if label = .consumer ∧ state.consumerHolds ≠ none then
    some { state with consumerHolds := none }
  else (ProdConsProb.advance iterations state.base label).map (state.afterBase label)

def boot : Talking := ⟨ProdConsProb.boot, none, none⟩

def system (iterations : Nat) : System Talking Label where
  init state := state = boot
  step state label after := state.advance iterations label = some after

def Finished (iterations : Nat) (state : Talking) : Prop :=
  state.base.Finished iterations ∧ state.producerHolds = none ∧ state.consumerHolds = none

theorem advance_cases {iterations : Nat} {state after : Talking} {label : Label}
    (stepped : state.advance iterations label = some after) :
    (∃ value, label = .producer ∧ state.producerHolds = some value ∧
        after = { state with producerHolds := none }) ∨
      (∃ value, label = .consumer ∧ state.consumerHolds = some value ∧
        after = { state with consumerHolds := none }) ∨
      ∃ next, ProdConsProb.advance iterations state.base label = some next ∧
        (label = .producer → state.producerHolds = none) ∧
        (label = .consumer → state.consumerHolds = none) ∧
        after = state.afterBase label next := by
  unfold advance at stepped
  split_ifs at stepped with producer consumer
  · obtain ⟨rfl, holds⟩ := producer
    obtain ⟨value, held⟩ := Option.ne_none_iff_exists'.mp holds
    cases stepped
    exact Or.inl ⟨value, rfl, held, rfl⟩
  · obtain ⟨rfl, holds⟩ := consumer
    obtain ⟨value, held⟩ := Option.ne_none_iff_exists'.mp holds
    cases stepped
    exact Or.inr (Or.inl ⟨value, rfl, held, rfl⟩)
  · obtain ⟨next, advanced, rfl⟩ := Option.map_eq_some_iff.mp stepped
    refine Or.inr (Or.inr ⟨next, advanced, ?_, ?_, rfl⟩)
    · intro own
      by_contra holds
      exact producer ⟨own, holds⟩
    · intro own
      by_contra holds
      exact consumer ⟨own, holds⟩

theorem reachable_base {iterations : Nat} {state : Talking}
    (reached : Reachable (system iterations) state) :
    Reachable (ProdConsProb.system iterations) state.base := by
  have begins : ∀ state : Talking, (system iterations).init state →
      (ProdConsProb.system iterations).init state.base := by
    rintro _ rfl
    rfl
  apply reachable_map base begins _ reached
  intro before label after _ taken
  rcases advance_cases taken with ⟨_, _, _, rfl⟩ | ⟨_, _, _, rfl⟩ | ⟨next, advanced, _, _, rfl⟩
  · exact Or.inl rfl
  · exact Or.inl rfl
  · exact Or.inr ⟨label, advanced⟩

end Talking

def shows (state : Talking) : Label → List Line
  | .producer => (state.producerHolds.map Line.producer).toList
  | .consumer => (state.consumerHolds.map Line.consumer).toList
  | .wakeProducer => []
  | .wakeConsumer => []

def threads (iterations : Nat) : Threads (Logged Talking Line) Label where
  system := logged (Talking.system iterations) shows
  count := 2
  owner
    | .producer => 0
    | .wakeProducer => 0
    | .consumer => 1
    | .wakeConsumer => 1
  done id entry := decide (
    if id = 0 then
      entry.state.base.producer = ⟨iterations, .lock⟩ ∧ entry.state.producerHolds = none
    else entry.state.base.consumer = ⟨iterations, .lock⟩ ∧ entry.state.consumerHolds = none)

theorem done_finished {iterations : Nat} {entry : Logged Talking Line} :
    (∀ id, id < (threads iterations).count → (threads iterations).done id entry = true) ↔
      entry.state.Finished iterations := by
  constructor
  · intro finished
    obtain ⟨producer, shown⟩ := of_decide_eq_true (finished 0 Nat.zero_lt_two)
    obtain ⟨consumer, printed⟩ := of_decide_eq_true (finished 1 Nat.one_lt_two)
    exact ⟨⟨producer, consumer⟩, shown, printed⟩
  · rintro ⟨⟨producer, consumer⟩, shown, printed⟩ id _
    simp [threads, producer, consumer, shown, printed]

/-- Only its own steps move a thread that does not wait. -/
theorem producer_stays {iterations : Nat} {state after : State} {label : Label}
    (locking : state.producer.place = .lock) (other : label ≠ .producer)
    (stepped : advance iterations state label = some after) : after.producer = state.producer := by
  cases label with
  | producer => exact absurd rfl other
  | consumer =>
      simp only [advance] at stepped
      split at stepped
      · split_ifs at stepped
        · cases stepped
          rfl
        · cases stepped
          simp [Thread.wake, locking]
      · cases stepped
      · cases stepped
        rfl
  | wakeProducer => simp [advance, locking] at stepped
  | wakeConsumer =>
      simp only [advance] at stepped
      split_ifs at stepped
      cases stepped
      rfl

theorem consumer_stays {iterations : Nat} {state after : State} {label : Label}
    (locking : state.consumer.place = .lock) (other : label ≠ .consumer)
    (stepped : advance iterations state label = some after) : after.consumer = state.consumer := by
  cases label with
  | producer =>
      simp only [advance] at stepped
      split at stepped
      · split_ifs at stepped
        · cases stepped
          rfl
        · cases stepped
          simp [Thread.wake, locking]
      · cases stepped
      · cases stepped
        rfl
  | consumer => exact absurd rfl other
  | wakeProducer =>
      simp only [advance] at stepped
      split_ifs at stepped
      cases stepped
      rfl
  | wakeConsumer => simp [advance, locking] at stepped

theorem threads_regular (iterations : Nat) : (threads iterations).Regular where
  owned label := by
    cases label with
    | producer => exact Nat.zero_lt_two
    | wakeProducer => exact Nat.zero_lt_two
    | consumer => exact Nat.one_lt_two
    | wakeConsumer => exact Nat.one_lt_two
  stays id entry label after _ finished taken := by
    simp only [threads, decide_eq_true_eq] at finished ⊢
    rcases Talking.advance_cases taken.1 with
      ⟨value, _, held, same⟩ | ⟨value, _, held, same⟩ | ⟨next, advanced, _, _, same⟩
    · rw [same]
      split_ifs at finished ⊢
      · exact ⟨finished.1, rfl⟩
      · exact finished
    · rw [same]
      split_ifs at finished ⊢
      · exact finished
      · exact ⟨finished.1, rfl⟩
    · rw [same]
      split_ifs at finished ⊢
      · have other : label ≠ .producer := by
          rintro rfl
          simp [advance, finished] at advanced
        have stays := producer_stays (by rw [finished.1]) other advanced
        exact ⟨stays.trans finished.1, by simp [Talking.afterBase, finished]⟩
      · have other : label ≠ .consumer := by
          rintro rfl
          simp [advance, finished] at advanced
        have stays := consumer_stays (by rw [finished.1]) other advanced
        exact ⟨stays.trans finished.1, by simp [Talking.afterBase, finished]⟩

/-! ## The lines -/

structure Counts where
  created : Nat
  printed : Nat
  deriving DecidableEq, Repr

/-- The producer is at most one line ahead when it shows the next one. The consumer's next
line has its own item, once the line before that item is there; or the next item, once its
own has been announced. -/
def accept (iterations : Nat) (counts : Counts) : Line → Option Counts
  | .producer value =>
      if value = counts.created + 1 ∧ counts.created < iterations ∧
          counts.created ≤ counts.printed + 1 then
        some { counts with created := counts.created + 1 }
      else none
  | .consumer value =>
      if counts.printed < iterations ∧ counts.printed ≤ counts.created ∧
          (value = counts.printed + 1 ∨
            (value = counts.printed + 2 ∧ counts.printed + 1 < iterations ∧
              counts.printed < counts.created)) then
        some { counts with printed := counts.printed + 1 }
      else none

def counts (state : Talking) : Counts where
  created := state.base.producer.index - state.producerHolds.isSome.toNat
  printed := state.base.consumer.index - state.consumerHolds.isSome.toNat

/-- What has been read and not shown: the producer's own item, and the consumer's own or the
next one. -/
structure Tidy (iterations : Nat) (state : Talking) : Prop where
  producer : ∀ value, state.producerHolds = some value → state.base.producer.place = .lock ∧
    0 < state.base.producer.index ∧ value = state.base.producer.index
  consumer : ∀ value, state.consumerHolds = some value → state.base.consumer.place = .lock ∧
    0 < state.base.consumer.index ∧ (value = state.base.consumer.index ∨
      (value = state.base.consumer.index + 1 ∧ state.base.consumer.index < iterations ∧
        state.base.consumer.index ≤ (counts state).created))

theorem boot_tidy (iterations : Nat) : Tidy iterations Talking.boot where
  producer := by rintro _ ⟨⟩
  consumer := by rintro _ ⟨⟩

/-- A loop counter moves with the reading of the argument only. -/
theorem advance_index {iterations : Nat} {state after : State} {label : Label}
    (stepped : advance iterations state label = some after) :
    after.producer.index = (if label = .producer ∧ state.producer.place = .print then
        state.producer.index + 1 else state.producer.index) ∧
      after.consumer.index = if label = .consumer ∧ state.consumer.place = .print then
        state.consumer.index + 1 else state.consumer.index := by
  obtain ⟨data, ready, ⟨made, place⟩, ⟨taken, consumerPlace⟩, created, printed⟩ := state
  cases label with
  | producer =>
      cases place with
      | waiting => cases stepped
      | lock =>
          simp only [advance] at stepped
          split_ifs at stepped <;> cases stepped <;> simp [Thread.wake_index]
      | print =>
          cases stepped
          simp
  | consumer =>
      cases consumerPlace with
      | waiting => cases stepped
      | lock =>
          simp only [advance] at stepped
          split_ifs at stepped <;> cases stepped <;> simp [Thread.wake_index]
      | print =>
          cases stepped
          simp
  | wakeProducer =>
      simp only [advance] at stepped
      split_ifs at stepped
      cases stepped
      simp [Thread.wake_index]
  | wakeConsumer =>
      simp only [advance] at stepped
      split_ifs at stepped
      cases stepped
      simp [Thread.wake_index]

theorem counts_after_base {iterations : Nat} {state : Talking} {next : State} {label : Label}
    (stepped : advance iterations state.base label = some next)
    (producerSilent : label = .producer → state.producerHolds = none)
    (consumerSilent : label = .consumer → state.consumerHolds = none) :
    counts (state.afterBase label next) = counts state := by
  obtain ⟨producer, consumer⟩ := advance_index stepped
  unfold counts Talking.afterBase
  simp only [Counts.mk.injEq, producer, consumer]
  constructor
  · split_ifs with reads
    · simp [producerSilent reads.1]
    · rfl
  · split_ifs with reads
    · simp [consumerSilent reads.1]
    · rfl

/-- The producer is at most one item ahead of its lines. -/
theorem sections_le_created {iterations : Nat} {state : Talking} (tidy : Tidy iterations state) :
    state.base.producer.sections ≤ (counts state).created + 1 := by
  unfold counts Thread.sections
  cases holds : state.producerHolds with
  | none =>
      simp only [Option.isSome_none, Bool.toNat_false]
      split_ifs <;> omega
  | some value =>
      obtain ⟨locking, _, _⟩ := tidy.producer value holds
      simp only [Option.isSome_some, Bool.toNat_true, locking, reduceCtorEq, if_false]
      omega

theorem base_tidy {iterations : Nat} {state : Talking} {next : State} {label : Label}
    (sound : Sound iterations state.base) (tidy : Tidy iterations state)
    (stepped : advance iterations state.base label = some next)
    (producerSilent : label = .producer → state.producerHolds = none)
    (consumerSilent : label = .consumer → state.consumerHolds = none) :
    Tidy iterations (state.afterBase label next) := by
  have same := counts_after_base stepped producerSilent consumerSilent
  have close := sections_le_created tidy
  have lastMade := sound.data
  have handed := sound.handed
  have produced := sound.produced
  constructor
  · intro value holds
    simp only [Talking.afterBase] at holds ⊢
    split_ifs at holds with reads
    · obtain ⟨rfl, printing⟩ := reads
      cases holds
      simp only [advance, printing, Option.some.injEq] at stepped
      subst stepped
      refine ⟨rfl, Nat.succ_pos _, ?_⟩
      rw [lastMade, Thread.sections, if_pos printing]
    · obtain ⟨locking, positive, right⟩ := tidy.producer value holds
      have other : label ≠ .producer := by
        intro own
        rw [producerSilent own] at holds
        cases holds
      rw [producer_stays locking other stepped]
      exact ⟨locking, positive, right⟩
  · intro value holds
    rw [same]
    simp only [Talking.afterBase] at holds ⊢
    split_ifs at holds with reads
    · obtain ⟨rfl, printing⟩ := reads
      cases holds
      simp only [advance, printing, Option.some.injEq] at stepped
      subst stepped
      have taken : state.base.consumer.sections = state.base.consumer.index + 1 := by
        rw [Thread.sections, if_pos printing]
      refine ⟨rfl, Nat.succ_pos _, ?_⟩
      dsimp only
      cases full : state.base.ready with
      | false =>
          rw [full, Bool.toNat_false] at handed
          left
          omega
      | true =>
          rw [full, Bool.toNat_true] at handed
          right
          omega
    · obtain ⟨locking, positive, right⟩ := tidy.consumer value holds
      have other : label ≠ .consumer := by
        intro own
        rw [consumerSilent own] at holds
        cases holds
      rw [consumer_stays locking other stepped]
      exact ⟨locking, positive, right⟩

theorem step_tidy {iterations : Nat} {state after : Talking} {label : Label}
    (sound : Sound iterations state.base) (tidy : Tidy iterations state)
    (stepped : state.advance iterations label = some after) : Tidy iterations after := by
  rcases Talking.advance_cases stepped with
    ⟨value, rfl, held, rfl⟩ | ⟨value, rfl, held, rfl⟩ | ⟨next, advanced, producer, consumer, rfl⟩
  · constructor
    · rintro _ ⟨⟩
    · intro value holds
      obtain ⟨locking, positive, right⟩ := tidy.consumer value holds
      refine ⟨locking, positive, right.imp_right fun next => ⟨next.1, next.2.1, ?_⟩⟩
      exact Nat.le_trans next.2.2 (Nat.sub_le_sub_left (Nat.zero_le _) _)
  · constructor
    · exact tidy.producer
    · rintro _ ⟨⟩
  · exact base_tidy sound tidy advanced producer consumer

theorem reachable_tidy {iterations : Nat} {state : Talking}
    (reached : Reachable (Talking.system iterations) state) : Tidy iterations state := by
  apply reachable_invariant _ _ reached
  · rintro _ rfl
    exact boot_tidy iterations
  · intro state label after prior tidy taken
    exact step_tidy (reachable_sound (Talking.reachable_base prior)) tidy taken

theorem step_accepted {iterations : Nat} {state after : Talking} {label : Label}
    (sound : Sound iterations state.base) (tidy : Tidy iterations state)
    (stepped : state.advance iterations label = some after) :
    run (accept iterations) (counts state) (shows state label) = some (counts after) := by
  have close := sections_le_created tidy
  have handed := sound.handed
  have produced := sound.produced
  have atMost : state.base.ready.toNat ≤ 1 := Bool.toNat_le _
  have ahead : state.base.consumer.sections ≤ (counts state).printed + 1 := by
    unfold counts Thread.sections
    cases holds : state.consumerHolds with
    | none =>
        simp only [Option.isSome_none, Bool.toNat_false]
        split_ifs <;> omega
    | some value =>
        obtain ⟨locking, _, _⟩ := tidy.consumer value holds
        simp only [Option.isSome_some, Bool.toNat_true, locking, reduceCtorEq, if_false]
        omega
  rcases Talking.advance_cases stepped with
    ⟨value, rfl, held, rfl⟩ | ⟨value, rfl, held, rfl⟩ | ⟨next, advanced, producer, consumer, rfl⟩
  · obtain ⟨locking, positive, rfl⟩ := tidy.producer value held
    have made : state.base.producer.sections = state.base.producer.index := by
      simp [Thread.sections, locking]
    have before : (counts state).created + 1 = state.base.producer.index := by
      simp only [counts, held, Option.isSome_some, Bool.toNat_true]
      omega
    have allowed : (state.base.producer.index : Int) = (counts state).created + 1 ∧
        (counts state).created < iterations ∧
        (counts state).created ≤ (counts state).printed + 1 := by
      omega
    simp only [shows, held, Option.map_some, Option.toList_some, run, accept]
    rw [if_pos allowed, Option.bind_some, before]
    rfl
  · obtain ⟨locking, positive, right⟩ := tidy.consumer value held
    have taken : state.base.consumer.sections = state.base.consumer.index := by
      simp [Thread.sections, locking]
    have before : (counts state).printed + 1 = state.base.consumer.index := by
      simp only [counts, held, Option.isSome_some, Bool.toNat_true]
      omega
    have allowed : (counts state).printed < iterations ∧
        (counts state).printed ≤ (counts state).created ∧ (value = (counts state).printed + 1 ∨
          (value = (counts state).printed + 2 ∧ (counts state).printed + 1 < iterations ∧
            (counts state).printed < (counts state).created)) := by
      omega
    simp only [shows, held, Option.map_some, Option.toList_some, run, accept]
    rw [if_pos allowed, Option.bind_some, before]
    rfl
  · rw [counts_after_base advanced producer consumer]
    have silent : shows state label = [] := by
      cases label with
      | producer => simp [shows, producer rfl]
      | consumer => simp [shows, consumer rfl]
      | wakeProducer => rfl
      | wakeConsumer => rfl
    rw [silent]
    rfl

/-! ## A run for accepted lines -/

/-- Nobody waits and nothing is read; the producer has left its section only where the
consumer's line could not wait for it. -/
structure Calm (state : Talking) : Prop where
  producerHolds : state.producerHolds = none
  consumerHolds : state.consumerHolds = none
  producer : state.base.producer.place = .lock ∨ (state.base.producer.place = .print ∧
    state.base.producer.index ≤ state.base.consumer.index)
  consumer : state.base.consumer.place = .lock

/-- The producer is two lines ahead, and the consumer has not read, as its next line is not
the one of its own item. -/
structure Unread (state : Talking) (coming : List Line) : Prop where
  producerHolds : state.producerHolds = none
  consumerHolds : state.consumerHolds = none
  producer : state.base.producer.place = .lock
  consumer : state.base.consumer.place = .print
  ahead : state.base.producer.index = state.base.consumer.index + 2
  next : coming.head? ≠ some (.consumer (state.base.consumer.index + 1))

/-- The producer is two lines ahead, and the consumer has read its own item, which it shows
next. -/
structure Holding (state : Talking) (coming : List Line) : Prop where
  producerHolds : state.producerHolds = none
  consumerHolds : state.consumerHolds = some (state.base.consumer.index : Int)
  producer : state.base.producer.place = .lock
  consumer : state.base.consumer.place = .lock
  ahead : state.base.producer.index = state.base.consumer.index + 1
  next : coming.head? = some (.consumer state.base.consumer.index)

/-- Between two lines of the schedule that shows given ones. Whether the consumer reads before
the producer's next section depends on the line that comes after the producer's. -/
def Rested (state : Talking) (position : Counts) (coming : List Line) : Prop :=
  counts state = position ∧ (Calm state ∨ Unread state coming ∨ Holding state coming)

def GoesOn (iterations : Nat) (entry : Logged Talking Line) (line : Line) (later : Counts)
    (coming : List Line) : Prop :=
  ∃ labels state, run (loggedNext (Talking.advance iterations) shows) entry labels =
    some ⟨state, entry.lines ++ [line]⟩ ∧ Rested state later coming

theorem calm_producer_line {iterations : Nat} {entry : Logged Talking Line} {value : Int}
    {coming : List Line} (sound : Sound iterations entry.state.base) (calm : Calm entry.state)
    (own : value = entry.state.base.producer.index + 1)
    (more : entry.state.base.producer.index < iterations) :
    GoesOn iterations entry (.producer value)
      ⟨entry.state.base.producer.index + 1, entry.state.base.consumer.index⟩ coming := by
  obtain ⟨producerHolds, consumerHolds, producer, consumer⟩ := calm
  have lastMade := sound.data
  have handed := sound.handed
  obtain ⟨⟨⟨data, ready, ⟨made, place⟩, ⟨taken, consumerPlace⟩, created, printed⟩, held, kept⟩,
    lines⟩ := entry
  simp only at own more producerHolds consumerHolds producer consumer lastMade handed
  subst own producerHolds consumerHolds consumer
  rcases producer with rfl | ⟨rfl, behind⟩
  · simp only [Thread.sections, reduceCtorEq, if_false] at lastMade handed
    cases ready with
    | false =>
        refine ⟨[.producer, .producer, .producer], ?_⟩
        simp [run, loggedNext, Talking.advance, Talking.afterBase, advance, shows, more,
          Thread.wake]
        exact ⟨rfl, Or.inl ⟨rfl, rfl, Or.inl rfl, rfl⟩⟩
    | true =>
        rw [Bool.toNat_true] at handed
        subst handed lastMade
        have lastMore : taken < iterations := Nat.lt_of_succ_lt more
        by_cases next : coming.head? = some (.consumer (taken + 1))
        · refine ⟨[.consumer, .consumer, .producer, .producer, .producer], ?_⟩
          simp [run, loggedNext, Talking.advance, Talking.afterBase, advance, shows, more, lastMore,
            Thread.wake]
          exact ⟨rfl, Or.inr (Or.inr ⟨rfl, rfl, rfl, rfl, rfl, next⟩)⟩
        · refine ⟨[.consumer, .producer, .producer, .producer], ?_⟩
          simp [run, loggedNext, Talking.advance, Talking.afterBase, advance, shows, more, lastMore,
            Thread.wake]
          exact ⟨rfl, Or.inr (Or.inl ⟨rfl, rfl, rfl, rfl, rfl, next⟩)⟩
  · simp only [Thread.sections, if_true] at lastMade
    subst lastMade
    refine ⟨[.producer, .producer], ?_⟩
    simp [run, loggedNext, Talking.advance, Talking.afterBase, advance, shows]
    exact ⟨rfl, Or.inl ⟨rfl, rfl, Or.inl rfl, rfl⟩⟩

theorem calm_own_line {iterations : Nat} {entry : Logged Talking Line} {value : Int}
    {coming : List Line} (sound : Sound iterations entry.state.base) (calm : Calm entry.state)
    (own : value = entry.state.base.consumer.index + 1)
    (more : entry.state.base.consumer.index < iterations)
    (reached : entry.state.base.consumer.index ≤ entry.state.base.producer.index) :
    GoesOn iterations entry (.consumer value)
      ⟨entry.state.base.producer.index, entry.state.base.consumer.index + 1⟩ coming := by
  obtain ⟨producerHolds, consumerHolds, producer, consumer⟩ := calm
  have lastMade := sound.data
  have handed := sound.handed
  obtain ⟨⟨⟨data, ready, ⟨made, place⟩, ⟨taken, consumerPlace⟩, created, printed⟩, held, kept⟩,
    lines⟩ := entry
  simp only at own more reached producerHolds consumerHolds producer consumer lastMade handed
  subst own producerHolds consumerHolds consumer
  rcases producer with rfl | ⟨rfl, behind⟩
  · simp only [Thread.sections, reduceCtorEq, if_false] at lastMade handed
    cases ready with
    | false =>
        rw [Bool.toNat_false] at handed
        subst handed
        refine ⟨[.producer, .consumer, .consumer, .consumer], ?_⟩
        simp [run, loggedNext, Talking.advance, Talking.afterBase, advance, shows, more,
          Thread.wake]
        exact ⟨rfl, Or.inl ⟨rfl, rfl, Or.inr ⟨rfl, Nat.le_succ _⟩, rfl⟩⟩
    | true =>
        rw [Bool.toNat_true] at handed
        subst handed lastMade
        refine ⟨[.consumer, .consumer, .consumer], ?_⟩
        simp [run, loggedNext, Talking.advance, Talking.afterBase, advance, shows, more,
          Thread.wake]
        exact ⟨rfl, Or.inl ⟨rfl, rfl, Or.inl rfl, rfl⟩⟩
  · simp only [Thread.sections, if_true, reduceCtorEq, if_false] at lastMade handed
    obtain rfl : made = taken := Nat.le_antisymm behind reached
    have full : ready = true := by
      cases ready with
      | false => simp at handed
      | true => rfl
    subst full lastMade
    refine ⟨[.consumer, .consumer, .consumer], ?_⟩
    simp [run, loggedNext, Talking.advance, Talking.afterBase, advance, shows, more, Thread.wake]
    exact ⟨rfl, Or.inl ⟨rfl, rfl, Or.inr ⟨rfl, Nat.le_succ _⟩, rfl⟩⟩

theorem calm_next_line {iterations : Nat} {entry : Logged Talking Line} {value : Int}
    {coming : List Line} (sound : Sound iterations entry.state.base) (calm : Calm entry.state)
    (next : value = entry.state.base.consumer.index + 2)
    (more : entry.state.base.consumer.index + 1 < iterations)
    (announced : entry.state.base.consumer.index < entry.state.base.producer.index) :
    GoesOn iterations entry (.consumer value)
      ⟨entry.state.base.producer.index, entry.state.base.consumer.index + 1⟩ coming := by
  obtain ⟨producerHolds, consumerHolds, producer, consumer⟩ := calm
  have handed := sound.handed
  obtain ⟨⟨⟨data, ready, ⟨made, place⟩, ⟨taken, consumerPlace⟩, created, printed⟩, held, kept⟩,
    lines⟩ := entry
  simp only at next more announced producerHolds consumerHolds producer consumer handed
  subst next producerHolds consumerHolds consumer
  obtain rfl : place = .lock := producer.resolve_right fun behind =>
    absurd behind.2 (Nat.not_le_of_lt announced)
  simp only [Thread.sections, reduceCtorEq, if_false] at handed
  have full : ready = true := by
    cases ready with
    | false =>
        rw [Bool.toNat_false] at handed
        omega
    | true => rfl
  subst full
  rw [Bool.toNat_true] at handed
  subst handed
  have lastMore : taken < iterations := Nat.lt_of_succ_lt more
  refine ⟨[.consumer, .producer, .consumer, .consumer], ?_⟩
  simp [run, loggedNext, Talking.advance, Talking.afterBase, advance, shows, more, lastMore,
    Thread.wake]
  exact ⟨by omega, rfl, Or.inl ⟨rfl, rfl, Or.inr ⟨rfl, Nat.le_refl _⟩, rfl⟩⟩

theorem unread_next_line {iterations : Nat} {entry : Logged Talking Line} {value : Int}
    {before coming : List Line} (sound : Sound iterations entry.state.base)
    (unread : Unread entry.state before)
    (next : value = entry.state.base.consumer.index + 2) :
    GoesOn iterations entry (.consumer value)
      ⟨entry.state.base.producer.index, entry.state.base.consumer.index + 1⟩ coming := by
  obtain ⟨producerHolds, consumerHolds, producer, consumer, ahead, _⟩ := unread
  have lastMade := sound.data
  obtain ⟨⟨⟨data, ready, ⟨made, place⟩, ⟨taken, consumerPlace⟩, created, printed⟩, held, kept⟩,
    lines⟩ := entry
  simp only at next producerHolds consumerHolds producer consumer ahead lastMade
  subst next producerHolds consumerHolds producer consumer ahead
  simp only [Thread.sections, reduceCtorEq, if_false] at lastMade
  subst lastMade
  refine ⟨[.consumer, .consumer], ?_⟩
  simp [run, loggedNext, Talking.advance, Talking.afterBase, advance, shows]
  exact ⟨rfl, Or.inl ⟨rfl, rfl, Or.inl rfl, rfl⟩⟩

theorem holding_own_line {iterations : Nat} {entry : Logged Talking Line}
    {before coming : List Line} (holding : Holding entry.state before) :
    GoesOn iterations entry (.consumer entry.state.base.consumer.index)
      ⟨entry.state.base.producer.index, entry.state.base.consumer.index⟩ coming := by
  obtain ⟨producerHolds, consumerHolds, producer, consumer, _, _⟩ := holding
  obtain ⟨⟨⟨data, ready, ⟨made, place⟩, ⟨taken, consumerPlace⟩, created, printed⟩, held, kept⟩,
    lines⟩ := entry
  simp only at producerHolds consumerHolds producer consumer
  subst producerHolds consumerHolds producer consumer
  refine ⟨[.consumer], ?_⟩
  simp [run, loggedNext, Talking.advance, shows]
  exact ⟨rfl, Or.inl ⟨rfl, rfl, Or.inl rfl, rfl⟩⟩

theorem line_shown {iterations : Nat} {entry : Logged Talking Line} {position later : Counts}
    {line : Line} {coming : List Line} (sound : Sound iterations entry.state.base)
    (rested : Rested entry.state position (line :: coming))
    (accepted : accept iterations position line = some later) :
    GoesOn iterations entry line later coming := by
  obtain ⟨rfl, places⟩ := rested
  rcases places with calm | unread | holding
  · have stands : counts entry.state =
        ⟨entry.state.base.producer.index, entry.state.base.consumer.index⟩ := by
      simp [counts, calm.producerHolds, calm.consumerHolds]
    rw [stands] at accepted
    cases line with
    | producer value =>
        obtain ⟨⟨own, more, _⟩, same⟩ := Option.ite_none_right_eq_some.mp accepted
        cases same
        exact calm_producer_line sound calm own more
    | consumer value =>
        obtain ⟨⟨more, reached, which⟩, same⟩ := Option.ite_none_right_eq_some.mp accepted
        cases same
        rcases which with own | ⟨next, inside, announced⟩
        · exact calm_own_line sound calm own more reached
        · exact calm_next_line sound calm next inside announced
  · have stands : counts entry.state =
        ⟨entry.state.base.producer.index, entry.state.base.consumer.index⟩ := by
      simp [counts, unread.producerHolds, unread.consumerHolds]
    have ahead := unread.ahead
    rw [stands] at accepted
    cases line with
    | producer value =>
        obtain ⟨⟨_, _, near⟩, _⟩ := Option.ite_none_right_eq_some.mp accepted
        simp only at near
        omega
    | consumer value =>
        obtain ⟨⟨_, _, which⟩, same⟩ := Option.ite_none_right_eq_some.mp accepted
        cases same
        rcases which with own | ⟨next, _, _⟩
        · exact absurd (by rw [own]; rfl) unread.next
        · exact unread_next_line sound unread next
  · have first := holding.next
    have ahead := holding.ahead
    simp only [List.head?_cons, Option.some.injEq] at first
    subst first
    have held : counts entry.state =
        ⟨entry.state.base.producer.index, entry.state.base.consumer.index - 1⟩ := by
      simp [counts, holding.producerHolds, holding.consumerHolds]
    rw [held] at accepted
    obtain ⟨⟨_, _, which⟩, same⟩ := Option.ite_none_right_eq_some.mp accepted
    simp only at which same
    obtain rfl : later = ⟨entry.state.base.producer.index, entry.state.base.consumer.index⟩ := by
      rw [← Option.some.inj same]
      simp only [Counts.mk.injEq, true_and]
      omega
    exact holding_own_line holding

theorem lines_of_run {iterations : Nat} {entry : Logged Talking Line}
    (reached : Reachable (threads iterations).system entry) :
    run (accept iterations) ⟨0, 0⟩ entry.lines = some (counts entry.state) := by
  have begins : ∀ state, (Talking.system iterations).init state → counts state = ⟨0, 0⟩ := by
    rintro _ rfl
    rfl
  have answers : ∀ state label after position, Reachable (Talking.system iterations) state →
      counts state = position → (Talking.system iterations).step state label after →
        ∃ later, run (accept iterations) position (shows state label) = some later ∧
          counts after = later := by
    rintro state label after _ prior rfl stepped
    have sound := reachable_sound (Talking.reachable_base prior)
    exact ⟨counts after, step_accepted sound (reachable_tidy prior) stepped, rfl⟩
  obtain ⟨position, accepted, stands⟩ := lines_accepted begins answers reached
  rw [accepted, stands]

theorem run_of_lines {iterations : Nat} {lines : List Line} {position : Counts}
    (accepted : run (accept iterations) ⟨0, 0⟩ lines = some position) :
    ∃ state, Reachable (threads iterations).system ⟨state, lines⟩ ∧ Rested state position [] := by
  have begins : ∀ lines : List Line, ∃ state, (Talking.system iterations).init state ∧
      Rested state ⟨0, 0⟩ lines :=
    fun _ => ⟨Talking.boot, rfl, rfl, Or.inl ⟨rfl, rfl, Or.inl rfl, rfl⟩⟩
  apply lines_shown_ahead begins _ accepted
  intro entry position line later coming reached rested next
  have sound := reachable_sound (Talking.reachable_base (reachable_logged_state reached))
  obtain ⟨labels, state, result, restsAgain⟩ := line_shown sound rested next
  exact ⟨state, reachable_of_run (logged_next_sound fun _ _ _ stepped => stepped) reached result,
    restsAgain⟩

theorem rested_finished {iterations : Nat} {state : Talking} {coming : List Line}
    (sound : Sound iterations state.base) (rested : Rested state ⟨iterations, iterations⟩ coming) :
    state.Finished iterations := by
  obtain ⟨stands, places⟩ := rested
  have produced := sound.produced
  obtain ⟨⟨data, ready, ⟨made, place⟩, ⟨taken, consumerPlace⟩, created, printed⟩, held, kept⟩ :=
    state
  obtain ⟨madeAll, takenAll⟩ := Counts.mk.inj stands
  rcases places with calm | unread | holding
  · obtain ⟨producerHolds, consumerHolds, producer, consumer⟩ := calm
    simp only at producerHolds consumerHolds producer consumer madeAll takenAll
    subst producerHolds consumerHolds consumer
    simp only [Option.isSome_none, Bool.toNat_false, Nat.sub_zero] at madeAll takenAll
    subst madeAll takenAll
    rcases producer with rfl | ⟨rfl, _⟩
    · exact ⟨⟨rfl, rfl⟩, rfl, rfl⟩
    · rw [Thread.sections_print] at produced
      exact absurd produced (Nat.not_succ_le_self _)
  · obtain ⟨producerHolds, consumerHolds, _, _, ahead, _⟩ := unread
    simp only at producerHolds consumerHolds ahead
    subst producerHolds consumerHolds
    simp only [Option.isSome_none, Bool.toNat_false] at madeAll takenAll
    omega
  · obtain ⟨producerHolds, consumerHolds, _, _, ahead, _⟩ := holding
    simp only at producerHolds consumerHolds ahead
    subst producerHolds consumerHolds
    simp only [Option.isSome_none, Option.isSome_some, Bool.toNat_false, Bool.toNat_true]
      at madeAll takenAll
    omega

/-! ## The numbers of the consumer -/

def consumed (lines : List Line) : List Int :=
  lines.filterMap fun
    | .consumer value => some value
    | .producer _ => none

/-- Each number is that of its item or of the next one. -/
def Possible (iterations : Nat) (numbers : List Int) : Prop :=
  ∀ index, (inside : index < numbers.length) → numbers[index] = index + 1 ∨
    (numbers[index] = index + 2 ∧ index + 1 < iterations)

theorem possible_append_iff {iterations : Nat} {numbers : List Int} {value : Int} :
    Possible iterations (numbers ++ [value]) ↔ Possible iterations numbers ∧
      (value = numbers.length + 1 ∨
        (value = numbers.length + 2 ∧ numbers.length + 1 < iterations)) := by
  unfold Possible
  constructor
  · intro possible
    constructor
    · intro index inside
      have earlier := possible index (by simp; omega)
      rwa [List.getElem_append_left inside] at earlier
    · have last := possible numbers.length (by simp)
      rwa [List.getElem_concat_length rfl] at last
  · rintro ⟨possible, last⟩ index inside
    rw [List.length_append, List.length_singleton] at inside
    rcases Nat.lt_succ_iff_lt_or_eq.mp inside with earlier | rfl
    · rw [List.getElem_append_left earlier]
      exact possible index earlier
    · rwa [List.getElem_concat_length rfl]

theorem consumed_possible {iterations : Nat} {lines : List Line} {position : Counts}
    (accepted : run (accept iterations) ⟨0, 0⟩ lines = some position) :
    (consumed lines).length = position.printed ∧ Possible iterations (consumed lines) := by
  induction lines using List.reverseRecOn generalizing position with
  | nil =>
      cases accepted
      exact ⟨rfl, fun index inside => absurd inside (Nat.not_lt_zero index)⟩
  | append_singleton lines line ih =>
      rw [run_append, Option.bind_eq_some_iff] at accepted
      obtain ⟨middle, before, last⟩ := accepted
      obtain ⟨count, possible⟩ := ih before
      rw [run, Option.bind_eq_some_iff] at last
      obtain ⟨later, stepped, rest⟩ := last
      cases rest
      cases line with
      | producer value =>
          obtain ⟨_, next⟩ := Option.ite_none_right_eq_some.mp stepped
          cases next
          have same : consumed (lines ++ [.producer value]) = consumed lines := by
            simp [consumed]
          rw [same]
          exact ⟨count, possible⟩
      | consumer value =>
          obtain ⟨allowed, next⟩ := Option.ite_none_right_eq_some.mp stepped
          cases next
          have more : consumed (lines ++ [.consumer value]) = consumed lines ++ [value] := by
            simp [consumed]
          rw [more, possible_append_iff, count, List.length_append, count]
          refine ⟨rfl, possible, ?_⟩
          rcases allowed.2.2 with own | ⟨next, inside, _⟩
          · exact Or.inl own
          · exact Or.inr ⟨next, inside⟩

/-- The producer keeps one announced item ahead, or announces the next one before the
consumer prints it. -/
theorem possible_accepted {iterations : Nat} {numbers : List Int}
    (possible : Possible iterations numbers) (within : numbers.length ≤ iterations) :
    ∃ lines, consumed lines = numbers ∧ run (accept iterations) ⟨0, 0⟩ lines =
      some ⟨min (numbers.length + 1) iterations, numbers.length⟩ := by
  induction numbers using List.reverseRecOn with
  | nil =>
      by_cases none : iterations = 0
      · subst none
        exact ⟨[], rfl, rfl⟩
      · refine ⟨[.producer 1], rfl, ?_⟩
        have first : 0 < iterations := Nat.pos_of_ne_zero none
        simp [run, accept, first, Nat.min_eq_left (Nat.succ_le_of_lt first)]
  | append_singleton numbers value ih =>
      rw [possible_append_iff] at possible
      obtain ⟨earlier, last⟩ := possible
      rw [List.length_append, List.length_singleton] at within
      obtain ⟨lines, same, accepted⟩ := ih earlier (Nat.le_of_succ_le within)
      rw [Nat.min_eq_left within] at accepted
      have further : ∀ more : List Line, consumed (lines ++ more) = numbers ++ consumed more ∧
          run (accept iterations) ⟨0, 0⟩ (lines ++ more) =
            run (accept iterations) ⟨numbers.length + 1, numbers.length⟩ more := by
        intro more
        rw [consumed, List.filterMap_append, run_append, accepted, ← same]
        exact ⟨rfl, rfl⟩
      rw [List.length_append, List.length_singleton]
      by_cases another : numbers.length + 1 < iterations
      · rw [Nat.min_eq_left (Nat.succ_le_of_lt another)]
        rcases last with rfl | ⟨rfl, _⟩
        · refine ⟨lines ++ [.consumer (numbers.length + 1), .producer (numbers.length + 1 + 1)],
            (further _).1, (further _).2.trans ?_⟩
          simp [run, accept, another, Nat.lt_of_succ_lt another]
        · refine ⟨lines ++ [.producer (numbers.length + 1 + 1), .consumer (numbers.length + 2)],
            (further _).1, (further _).2.trans ?_⟩
          have announced : numbers.length < numbers.length + 1 + 1 := by omega
          simp [run, accept, another, announced, Nat.lt_of_succ_lt another, Nat.le_of_lt announced]
      · obtain rfl : value = numbers.length + 1 := by
          rcases last with own | ⟨_, more⟩
          · exact own
          · exact absurd more another
        refine ⟨lines ++ [.consumer (numbers.length + 1)], (further _).1, (further _).2.trans ?_⟩
        rw [Nat.min_eq_right (by omega)]
        simp [run, accept]
        omega

/-! ## The end of a run -/

def Spurious : Label → Prop
  | .wakeProducer => True
  | .wakeConsumer => True
  | _ => False

/-- The steps that are left to a thread by itself, the line that it has read included. One that
waits has to be woken first, which is what its section pays for the other one. -/
def turns (iterations : Nat) (thread : Thread) (holds : Option Int) : Nat :=
  4 * (iterations - thread.sections) + holds.isSome.toNat +
    match thread.place with
    | .waiting => 0
    | .lock => 1
    | .print => 3

theorem turns_section {iterations index : Nat} (more : index < iterations) (holds : Option Int) :
    turns iterations ⟨index, .print⟩ holds + 1 < turns iterations ⟨index, .lock⟩ holds := by
  simp only [turns, Thread.sections, reduceCtorEq, if_true, if_false]
  omega

theorem turns_wake (iterations : Nat) (thread : Thread) (holds : Option Int) :
    turns iterations thread.wake holds ≤ turns iterations thread holds + 1 := by
  obtain ⟨index, place⟩ := thread
  cases place <;> simp [Thread.wake, turns, Thread.sections]

theorem turns_shown (iterations : Nat) (thread : Thread) (value : Int) :
    turns iterations thread none < turns iterations thread (some value) := by
  simp [turns]

def work (iterations : Nat) (entry : Logged Talking Line) : Nat :=
  turns iterations entry.state.base.producer entry.state.producerHolds +
    turns iterations entry.state.base.consumer entry.state.consumerHolds

theorem base_lowers {iterations : Nat} {state : Talking} {next : State} {label : Label}
    (stepped : advance iterations state.base label = some next) (proper : ¬ Spurious label)
    (producerSilent : label = .producer → state.producerHolds = none)
    (consumerSilent : label = .consumer → state.consumerHolds = none) :
    turns iterations next.producer (state.afterBase label next).producerHolds +
        turns iterations next.consumer (state.afterBase label next).consumerHolds <
      turns iterations state.base.producer state.producerHolds +
        turns iterations state.base.consumer state.consumerHolds := by
  obtain ⟨⟨data, ready, ⟨made, place⟩, ⟨taken, consumerPlace⟩, created, printed⟩, held, kept⟩ :=
    state
  cases label with
  | producer =>
      obtain rfl : held = none := producerSilent rfl
      cases place with
      | waiting => cases stepped
      | lock =>
          simp only [advance] at stepped
          split_ifs at stepped with more
          · cases stepped
            simp [Talking.afterBase, turns, Thread.sections]
          · cases stepped
            have lower := turns_section more none
            have woken := turns_wake iterations ⟨taken, consumerPlace⟩ kept
            simp [Talking.afterBase]
            omega
      | print =>
          cases stepped
          simp [Talking.afterBase, turns, Thread.sections]
  | consumer =>
      obtain rfl : kept = none := consumerSilent rfl
      cases consumerPlace with
      | waiting => cases stepped
      | lock =>
          simp only [advance] at stepped
          split_ifs at stepped with more
          · cases stepped
            simp [Talking.afterBase, turns, Thread.sections]
          · cases stepped
            have lower := turns_section more none
            have woken := turns_wake iterations ⟨made, place⟩ held
            simp [Talking.afterBase]
            omega
      | print =>
          cases stepped
          simp [Talking.afterBase, turns, Thread.sections]
  | wakeProducer => exact absurd trivial proper
  | wakeConsumer => exact absurd trivial proper

theorem work_lowers {iterations : Nat} {entry after : Logged Talking Line} {label : Label}
    (stepped : entry.state.advance iterations label = some after.state)
    (proper : ¬ Spurious label) : work iterations after < work iterations entry := by
  unfold work
  rcases Talking.advance_cases stepped with
    ⟨value, _, held, same⟩ | ⟨value, _, held, same⟩ | ⟨next, advanced, producer, consumer, same⟩
  · rw [same, held]
    exact Nat.add_lt_add_right (turns_shown ..) _
  · rw [same, held]
    exact Nat.add_lt_add_left (turns_shown ..) _
  · rw [same]
    exact base_lowers advanced proper producer consumer

theorem threads_go_on {iterations : Nat} (entry : Logged Talking Line)
    (reached : Reachable (threads iterations).system entry) :
    (∀ id, id < (threads iterations).count → (threads iterations).done id entry = true) ∨
      ∃ label after, ¬ Spurious label ∧ (threads iterations).system.step entry label after := by
  have moves : ∀ label, ¬ Spurious label → entry.state.advance iterations label ≠ none →
      ∃ label after, ¬ Spurious label ∧ (threads iterations).system.step entry label after := by
    intro label proper some
    obtain ⟨after, stepped⟩ := Option.ne_none_iff_exists'.mp some
    exact ⟨label, ⟨after, entry.lines ++ shows entry.state label⟩, proper, stepped, rfl⟩
  by_cases producerHolds : entry.state.producerHolds = none
  · by_cases consumerHolds : entry.state.consumerHolds = none
    · -- nothing has been read, so that a thread goes on as it does in the base
      have goesOn : ∀ label, advance iterations entry.state.base label ≠ none →
          entry.state.advance iterations label ≠ none := by
        intro label able
        simpa [Talking.advance, producerHolds, consumerHolds] using able
      have base := reachable_sound (Talking.reachable_base (reachable_logged_state reached))
      rcases base.progress with finished | producer | consumer
      · exact Or.inl (done_finished.mpr ⟨finished, producerHolds, consumerHolds⟩)
      · exact Or.inr (moves .producer id (goesOn _ producer))
      · exact Or.inr (moves .consumer id (goesOn _ consumer))
    · exact Or.inr (moves .consumer id (by simp [Talking.advance, consumerHolds]))
  · exact Or.inr (moves .producer id (by simp [Talking.advance, producerHolds]))

def program (iterations : Nat) :
    System (Program (Logged Talking Line)) (Option Label) :=
  (threads iterations).program

theorem returned_finished {iterations : Nat} {state : Program (Logged Talking Line)}
    (reached : Reachable (program iterations) state) (returned : state.main = .returned) :
    state.threads.state.Finished iterations :=
  done_finished.mp (Threads.returned_done (threads_regular iterations) reached returned)

theorem returned_of_run {iterations : Nat} {lines : List Line}
    (accepted : run (accept iterations) ⟨0, 0⟩ lines = some ⟨iterations, iterations⟩) :
    ∃ state, Reachable (program iterations) ⟨.returned, ⟨state, lines⟩⟩ := by
  obtain ⟨state, reached, rested⟩ := run_of_lines accepted
  have sound := reachable_sound (Talking.reachable_base (reachable_logged_state reached))
  exact ⟨state, Threads.reachable_returned (threads_regular iterations) reached
    (done_finished.mpr (rested_finished sound rested))⟩

theorem returned_run {iterations : Nat} {state : Program (Logged Talking Line)}
    (reached : Reachable (program iterations) state) (returned : state.main = .returned) :
    run (accept iterations) ⟨0, 0⟩ state.threads.lines = some ⟨iterations, iterations⟩ := by
  obtain ⟨⟨producer, consumer⟩, shown, printed⟩ := returned_finished reached returned
  rw [lines_of_run (Threads.reachable_threads reached), counts, producer, consumer, shown, printed]
  rfl

/-- What the program can print, on the way and in the end; which numbers the consumer can
print; and that only wake-ups without a signal can keep `main` from returning. -/
theorem transcripts_exact (iterations : Nat) :
    (∀ lines, (∃ state, Reachable (program iterations) state ∧ state.threads.lines = lines) ↔
        (run (accept iterations) ⟨0, 0⟩ lines).isSome = true) ∧
      (∀ lines, (∃ state, Reachable (program iterations) state ∧ state.main = .returned ∧
          state.threads.lines = lines) ↔
        run (accept iterations) ⟨0, 0⟩ lines = some ⟨iterations, iterations⟩) ∧
      (∀ numbers, (∃ state, Reachable (program iterations) state ∧ state.main = .returned ∧
          consumed state.threads.lines = numbers) ↔
        numbers.length = iterations ∧ Possible iterations numbers) ∧
      (∀ state, Reachable (program iterations) state → state.main = .returned ∨
        ∃ label after, (program iterations).step state label after ∧
          ∀ inner, label = some inner → ¬ Spurious inner) ∧
      ∀ states, InfiniteRun (program iterations) states → ∀ start, ∃ index inner,
        start ≤ index ∧ Spurious inner ∧
          (program iterations).step (states index) (some inner) (states (index + 1)) := by
  refine ⟨?_, ?_, ?_, ?_, ?_⟩
  · intro lines
    constructor
    · rintro ⟨state, reached, rfl⟩
      rw [lines_of_run (Threads.reachable_threads reached)]
      rfl
    · intro accepted
      obtain ⟨position, result⟩ := Option.isSome_iff_exists.mp accepted
      obtain ⟨state, reached, _⟩ := run_of_lines result
      exact ⟨_, Threads.reachable_joining (threads_regular iterations) reached, rfl⟩
  · intro lines
    constructor
    · rintro ⟨state, reached, returned, rfl⟩
      exact returned_run reached returned
    · intro accepted
      obtain ⟨state, reached⟩ := returned_of_run accepted
      exact ⟨_, reached, rfl, rfl⟩
  · intro numbers
    constructor
    · rintro ⟨state, reached, returned, rfl⟩
      exact consumed_possible (returned_run reached returned)
    · rintro ⟨rfl, possible⟩
      obtain ⟨lines, same, accepted⟩ := possible_accepted possible (Nat.le_refl _)
      rw [Nat.min_eq_right (Nat.le_succ _)] at accepted
      obtain ⟨state, reached⟩ := returned_of_run accepted
      exact ⟨_, reached, rfl, same⟩
  · intro state reached
    exact Threads.program_goes_on (threads_regular iterations) threads_go_on reached
  · intro states endless start
    apply Threads.program_recurs (threads_regular iterations) (work iterations) _ endless start
    exact fun _ _ _ _ taken proper => work_lowers taken.1 proper

end LinuxSystemPrograms.ProdConsTranscript
