import LinuxSystemPrograms.ForkJoin
import LinuxSystemPrograms.SemProConProb
import LinuxSystemPrograms.Transcripts

/-!
# What `sem_pro_con_prob.c` can print

The program with its `main`, and the lines of both threads in the order in which they appear.
`produce` prints behind its section, in a step of its own; `consume` prints within. What is
printed is a history of a bounded queue: `accept` is the queue, and it knows nothing of
semaphores and slots.
-/

namespace LinuxSystemPrograms.SemProConTranscript

open LinuxSystemPrograms.ForkJoin
open LinuxSystemPrograms.SemProConProb
open LinuxSystemPrograms.Transcripts
open LinuxSystemPrograms.Transition

set_option autoImplicit false

inductive Line where
  | created (mission : Int)
  | accomplished (mission : Int)
  deriving DecidableEq, Repr

/-- `announced` is set between the `printf` of `produce` and the `sem_post` behind it. -/
structure Talking where
  base : State
  announced : Bool

namespace Talking

def Printing (state : Talking) : Prop :=
  state.base.producer.place = .semPost ∧ state.announced = false

instance (state : Talking) : Decidable state.Printing := inferInstanceAs (Decidable (_ ∧ _))

def advance (iterations : Nat) (state : Talking) : Label → Option Talking
  | .producer =>
      if state.Printing then some { state with announced := true }
      else (SemProConProb.advance iterations state.base .producer).map fun base => ⟨base, false⟩
  | .consumer =>
      (SemProConProb.advance iterations state.base .consumer).map fun base =>
        { state with base := base }

def shows (state : Talking) : Label → List Line
  | .producer => if state.Printing then [.created state.base.producer.index] else []
  | .consumer =>
      if state.base.consumer.place = .locked then
        [.accomplished (consume state.base.consumer.index state.base.data).1]
      else []

end Talking

def system (iterations : Nat) : System Talking Label where
  init state := state = ⟨boot, false⟩
  step state label after := state.advance iterations label = some after

def threads (iterations : Nat) : Threads (Logged Talking Line) Label where
  system := logged (system iterations) Talking.shows
  count := 2
  owner
    | .producer => 0
    | .consumer => 1
  done id entry := decide (if id = 0 then entry.state.base.producer = ⟨iterations, .semWait⟩
    else entry.state.base.consumer = ⟨iterations, .semWait⟩)

theorem done_finished {iterations : Nat} {entry : Logged Talking Line} :
    (∀ id, id < (threads iterations).count → (threads iterations).done id entry = true) ↔
      entry.state.base.producer = ⟨iterations, .semWait⟩ ∧
        entry.state.base.consumer = ⟨iterations, .semWait⟩ := by
  constructor
  · intro finished
    exact ⟨of_decide_eq_true (finished 0 Nat.zero_lt_two),
      of_decide_eq_true (finished 1 Nat.one_lt_two)⟩
  · rintro ⟨producer, consumer⟩ id _
    simp [threads, producer, consumer]

inductive Turn (iterations : Nat) : Thread → Thread → Prop where
  | wait {index : Nat} (more : index < iterations) :
      Turn iterations ⟨index, .semWait⟩ ⟨index, .locked⟩
  | work (index : Nat) : Turn iterations ⟨index, .locked⟩ ⟨index, .semPost⟩
  | post (index : Nat) : Turn iterations ⟨index, .semPost⟩ ⟨index + 1, .semWait⟩

theorem producer_turn {iterations : Nat} {state after : State}
    (stepped : SemProConProb.advance iterations state .producer = some after) :
    Turn iterations state.producer after.producer ∧ after.consumer = state.consumer := by
  obtain ⟨data, full, empty, ⟨index, place⟩, consumer, printed⟩ := state
  cases place with
  | semWait =>
      simp only [SemProConProb.advance] at stepped
      split_ifs at stepped with ready
      cases stepped
      exact ⟨.wait ready.1, rfl⟩
  | locked =>
      cases stepped
      exact ⟨.work index, rfl⟩
  | semPost =>
      cases stepped
      exact ⟨.post index, rfl⟩

theorem consumer_turn {iterations : Nat} {state after : State}
    (stepped : SemProConProb.advance iterations state .consumer = some after) :
    Turn iterations state.consumer after.consumer ∧ after.producer = state.producer := by
  obtain ⟨data, full, empty, producer, ⟨index, place⟩, printed⟩ := state
  cases place with
  | semWait =>
      simp only [SemProConProb.advance] at stepped
      split_ifs at stepped with ready
      cases stepped
      exact ⟨.wait ready.1, rfl⟩
  | locked =>
      cases stepped
      exact ⟨.work index, rfl⟩
  | semPost =>
      cases stepped
      exact ⟨.post index, rfl⟩

theorem turn_not_finished {iterations : Nat} {after : Thread} :
    ¬ Turn iterations ⟨iterations, .semWait⟩ after := by
  intro turn
  cases turn with
  | wait more => exact absurd more (Nat.lt_irrefl _)

/-- What a step does to the state below. -/
theorem advance_cases {iterations : Nat} {state after : Talking} {label : Label}
    (stepped : state.advance iterations label = some after) :
    (label = .producer ∧ state.Printing ∧ after = ⟨state.base, true⟩) ∨
      (label = .producer ∧ ¬ state.Printing ∧ after.announced = false ∧
        SemProConProb.advance iterations state.base .producer = some after.base) ∨
      (label = .consumer ∧ after.announced = state.announced ∧
        SemProConProb.advance iterations state.base .consumer = some after.base) := by
  cases label with
  | producer =>
      simp only [Talking.advance] at stepped
      split_ifs at stepped with printing
      · cases stepped
        exact Or.inl ⟨rfl, printing, rfl⟩
      · obtain ⟨base, result, rfl⟩ := Option.map_eq_some_iff.mp stepped
        exact Or.inr (Or.inl ⟨rfl, printing, rfl, result⟩)
  | consumer =>
      obtain ⟨base, result, rfl⟩ := Option.map_eq_some_iff.mp stepped
      exact Or.inr (Or.inr ⟨rfl, rfl, result⟩)

/-- The printing step is the only one that the system below does not see. -/
theorem reachable_base {iterations : Nat} {state : Talking}
    (reached : Reachable (system iterations) state) :
    Reachable (SemProConProb.system iterations) state.base := by
  have begins : ∀ state, (system iterations).init state →
      (SemProConProb.system iterations).init state.base := by
    rintro _ rfl
    rfl
  apply reachable_map Talking.base begins _ reached
  intro before label after _ taken
  rcases advance_cases taken with ⟨_, _, rfl⟩ | ⟨_, _, _, result⟩ | ⟨_, _, result⟩
  · exact Or.inl rfl
  · exact Or.inr ⟨.producer, result⟩
  · exact Or.inr ⟨.consumer, result⟩

theorem producer_stays {iterations : Nat} {state after : Talking} {label : Label}
    (finished : state.base.producer = ⟨iterations, .semWait⟩)
    (stepped : state.advance iterations label = some after) :
    after.base.producer = ⟨iterations, .semWait⟩ := by
  rcases advance_cases stepped with ⟨_, _, rfl⟩ | ⟨_, _, _, result⟩ | ⟨_, _, result⟩
  · exact finished
  · exact absurd (finished ▸ (producer_turn result).1) turn_not_finished
  · rw [(consumer_turn result).2]
    exact finished

theorem consumer_stays {iterations : Nat} {state after : Talking} {label : Label}
    (finished : state.base.consumer = ⟨iterations, .semWait⟩)
    (stepped : state.advance iterations label = some after) :
    after.base.consumer = ⟨iterations, .semWait⟩ := by
  rcases advance_cases stepped with ⟨_, _, rfl⟩ | ⟨_, _, _, result⟩ | ⟨_, _, result⟩
  · exact finished
  · rw [(producer_turn result).2]
    exact finished
  · exact absurd (finished ▸ (consumer_turn result).1) turn_not_finished

theorem threads_regular (iterations : Nat) : (threads iterations).Regular where
  owned label := by
    cases label with
    | producer => exact Nat.zero_lt_two
    | consumer => exact Nat.one_lt_two
  stays id entry label after _ finished taken := by
    simp only [threads, decide_eq_true_eq] at finished ⊢
    split_ifs at finished ⊢
    · exact producer_stays finished taken.1
    · exact consumer_stays finished taken.1

/-! ## The lines -/

/-- A queue of missions of which `made` have been put in so far. -/
structure Queue where
  made : Nat
  items : List Nat
  deriving DecidableEq, Repr

def accept (iterations : Nat) (queue : Queue) : Line → Option Queue
  | .created mission =>
      if mission = queue.made ∧ queue.made < iterations ∧ queue.items.length < bufSize then
        some ⟨queue.made + 1, queue.items ++ [queue.made]⟩
      else none
  | .accomplished mission =>
      match queue.items with
      | [] => none
      | item :: rest => if mission = item then some { queue with items := rest } else none

namespace Talking

def made (state : Talking) : Nat := state.base.producer.index + state.announced.toNat

/-- The queue that the lines have built so far. -/
def queue (state : Talking) : Queue where
  made := state.made
  items := List.range' state.base.consumer.sections (state.made - state.base.consumer.sections)

end Talking

/-- `announced` belongs to the step between the section and `sem_post`. -/
def Tidy (state : Talking) : Prop := state.announced = true → state.base.producer.place = .semPost

theorem reachable_tidy {iterations : Nat} {state : Talking}
    (reached : Reachable (system iterations) state) : Tidy state := by
  apply reachable_invariant _ _ reached
  · rintro _ rfl announced
    cases announced
  · intro before label after _ tidy taken announced
    rcases advance_cases taken with ⟨_, printing, rfl⟩ | ⟨_, _, reset, _⟩ | ⟨_, same, result⟩
    · exact printing.1
    · rw [reset] at announced
      cases announced
    · rw [(consumer_turn result).2]
      exact tidy (same ▸ announced)

theorem sections_bounds (thread : Thread) : thread.index ≤ thread.sections ∧
    thread.sections ≤ thread.index + thread.held := by
  obtain ⟨index, place⟩ := thread
  cases place <;> simp [Thread.sections, Thread.held]

theorem queue_same {state after : Talking} (made : after.made = state.made)
    (sections : after.base.consumer.sections = state.base.consumer.sections) :
    after.queue = state.queue := by
  rw [Talking.queue, Talking.queue, made, sections]

theorem print_accepted {iterations : Nat} {state : Talking} (sound : Sound iterations state.base)
    (printing : state.Printing) :
    accept iterations state.queue (.created state.base.producer.index) =
      some (Talking.queue ⟨state.base, true⟩) := by
  have token : state.base.producer.held = 1 := by rw [Thread.held, printing.1]
  have available := sound.available
  have free := sound.free
  have producing := sound.producing
  obtain ⟨passed, below⟩ := sections_bounds state.base.consumer
  have before : state.made = state.base.producer.index := by
    rw [Talking.made, printing.2]
    rfl
  have room : (state.queue).items.length < bufSize := by
    rw [Talking.queue, List.length_range', before]
    omega
  have reached : state.base.consumer.sections ≤ state.base.producer.index := by omega
  have more : state.queue.made < iterations := by
    show state.made < iterations
    omega
  rw [accept, if_pos ⟨congrArg Nat.cast before.symm, more, room⟩]
  have after : (⟨state.base, true⟩ : Talking).made = state.base.producer.index + 1 := rfl
  rw [Talking.queue, Talking.queue, after, before, Nat.succ_sub reached, List.range'_1_concat,
    Nat.add_sub_cancel' reached]

theorem consume_accepted {iterations : Nat} {state after : Talking}
    (sound : Sound iterations state.base) (locked : state.base.consumer.place = .locked)
    (made : after.made = state.made)
    (sections : after.base.consumer.sections = state.base.consumer.index + 1) :
    accept iterations state.queue
        (.accomplished (consume state.base.consumer.index state.base.data).1) =
      some after.queue := by
  have token : state.base.consumer.held = 1 := by rw [Thread.held, locked]
  have before : state.base.consumer.sections = state.base.consumer.index := by
    rw [Thread.sections, locked]
  have available := sound.available
  have produced := (sections_bounds state.base.producer).1
  have announced : state.base.producer.index ≤ state.made := Nat.le_add_right _ _
  have value : (consume state.base.consumer.index state.base.data).1 =
      state.base.consumer.index := by
    apply sound.stored
    · exact Nat.le_of_eq before
    · omega
  have items : state.queue.items = state.base.consumer.index :: after.queue.items := by
    rw [Talking.queue, Talking.queue, made, sections, before]
    have count : state.made - state.base.consumer.index =
        state.made - (state.base.consumer.index + 1) + 1 := by omega
    rw [count, List.range'_succ]
  rw [accept, items, value]
  dsimp only
  rw [if_pos rfl]
  congr 1
  rw [Talking.queue, Talking.queue, made]

theorem turn_sections {iterations : Nat} {thread after : Thread}
    (turn : Turn iterations thread after) :
    after.sections = if thread.place = .locked then thread.index + 1 else thread.sections := by
  cases turn with
  | wait more => rfl
  | work index => rfl
  | post index => rfl

/-- A step of the producer that prints nothing leaves the count of its lines. -/
theorem quiet_made {iterations : Nat} {state after : Talking} (tidy : Tidy state)
    (quiet : ¬ state.Printing) (reset : after.announced = false)
    (turn : Turn iterations state.base.producer after.base.producer) :
    after.made = state.made := by
  unfold Talking.made
  unfold Tidy at tidy
  unfold Talking.Printing at quiet
  rw [reset]
  generalize state.base.producer = before at *
  generalize after.base.producer = later at *
  cases said : state.announced with
  | true =>
      have place := tidy said
      cases turn with
      | wait more => cases place
      | work index => cases place
      | post index => rfl
  | false =>
      cases turn with
      | wait more => rfl
      | work index => rfl
      | post index => exact absurd ⟨rfl, said⟩ quiet

theorem step_accepted {iterations : Nat} {state after : Talking} {label : Label}
    (sound : Sound iterations state.base) (tidy : Tidy state)
    (stepped : state.advance iterations label = some after) :
    run (accept iterations) state.queue (state.shows label) = some after.queue := by
  rcases advance_cases stepped with
    ⟨rfl, printing, rfl⟩ | ⟨rfl, quiet, reset, result⟩ | ⟨rfl, same, result⟩
  · rw [Talking.shows, if_pos printing, run, print_accepted sound printing]
    rfl
  · have silent : state.shows .producer = [] := if_neg quiet
    obtain ⟨turn, frame⟩ := producer_turn result
    rw [silent, run, queue_same (quiet_made tidy quiet reset turn) (congrArg Thread.sections frame)]
  · obtain ⟨turn, frame⟩ := consumer_turn result
    have made : after.made = state.made := by rw [Talking.made, Talking.made, same, frame]
    have cases := turn_sections turn
    by_cases locked : state.base.consumer.place = .locked
    · rw [Talking.shows, if_pos locked, run, consume_accepted sound locked made]
      · rfl
      · rw [if_pos locked] at cases
        exact cases
    · rw [if_neg locked] at cases
      rw [Talking.shows, if_neg locked, run, queue_same made cases]

theorem lines_of_run {iterations : Nat} {entry : Logged Talking Line}
    (reached : Reachable (threads iterations).system entry) :
    run (accept iterations) ⟨0, []⟩ entry.lines = some entry.state.queue := by
  have begins : ∀ state, (system iterations).init state → state.queue = ⟨0, []⟩ := by
    rintro _ rfl
    rfl
  have answers : ∀ state label after position, Reachable (system iterations) state →
      state.queue = position → (system iterations).step state label after →
        ∃ later, run (accept iterations) position (state.shows label) = some later ∧
          after.queue = later := by
    rintro state label after _ prior rfl stepped
    have sound := reachable_sound (reachable_base prior)
    exact ⟨after.queue, step_accepted sound (reachable_tidy prior) stepped, rfl⟩
  obtain ⟨position, accepted, stands⟩ := lines_accepted begins answers reached
  rw [accepted, stands]

/-- Between two lines of the schedule that shows given ones, both threads are at `sem_wait`. -/
structure Rested (state : Talking) : Prop where
  producer : state.base.producer.place = .semWait
  consumer : state.base.consumer.place = .semWait
  silent : state.announced = false

def GoesOn (iterations : Nat) (entry : Logged Talking Line) (line : Line) : Prop :=
  ∃ labels state, run (loggedNext (Talking.advance iterations) Talking.shows) entry labels =
    some ⟨state, entry.lines ++ [line]⟩ ∧ Rested state

theorem created_shown {iterations : Nat} {entry : Logged Talking Line}
    (sound : Sound iterations entry.state.base) (rested : Rested entry.state)
    (more : entry.state.queue.made < iterations)
    (room : entry.state.queue.items.length < bufSize) :
    GoesOn iterations entry (.created entry.state.queue.made) := by
  have free := sound.free
  obtain ⟨producer, consumer, silent⟩ := rested
  obtain ⟨⟨⟨data, full, empty, ⟨made, place⟩, ⟨taken, consumerPlace⟩, printed⟩, announced⟩, lines⟩ :=
    entry
  simp only at producer consumer silent
  subst producer consumer silent
  simp only [Talking.queue, Talking.made, Thread.sections, List.length_range', Bool.toNat_false,
    Nat.add_zero] at more room
  simp only [Thread.held] at free
  have token : 0 < empty := by omega
  refine ⟨[.producer, .producer, .producer, .producer], ?_⟩
  simp [run, loggedNext, Talking.advance, Talking.shows, Talking.Printing,
    SemProConProb.advance, Talking.queue, Talking.made, more, token]
  exact ⟨rfl, rfl, rfl⟩

theorem accomplished_shown {iterations : Nat} {entry : Logged Talking Line} {item : Nat}
    {rest : List Nat} (sound : Sound iterations entry.state.base) (rested : Rested entry.state)
    (items : entry.state.queue.items = item :: rest) :
    GoesOn iterations entry (.accomplished item) := by
  have available := sound.available
  have producing := sound.producing
  have stored := sound.stored
  obtain ⟨producer, consumer, silent⟩ := rested
  obtain ⟨⟨⟨data, full, empty, ⟨made, place⟩, ⟨taken, consumerPlace⟩, printed⟩, announced⟩, lines⟩ :=
    entry
  simp only at producer consumer silent
  subst producer consumer silent
  simp only [Talking.queue, Talking.made, Thread.sections, Bool.toNat_false, Nat.add_zero] at items
  obtain ⟨rfl, left, _⟩ := List.range'_eq_cons_iff.mp items
  simp only [Thread.held] at available producing
  have token : 0 < full := by omega
  have more : taken < iterations := by omega
  have value : data (slot taken) = taken := stored taken (Nat.le_refl _) (by
    show taken < made
    omega)
  refine ⟨[.consumer, .consumer, .consumer], ?_⟩
  simp [run, loggedNext, Talking.advance, Talking.shows, SemProConProb.advance, more, token,
    consume, value]
  exact ⟨rfl, rfl, rfl⟩

theorem run_of_lines {iterations : Nat} {lines : List Line} {queue : Queue}
    (accepted : run (accept iterations) ⟨0, []⟩ lines = some queue) :
    ∃ state, Reachable (threads iterations).system ⟨state, lines⟩ ∧ Rested state ∧
      state.queue = queue := by
  have begins : ∃ state, (system iterations).init state ∧ Rested state ∧ state.queue = ⟨0, []⟩ :=
    ⟨_, rfl, ⟨rfl, rfl, rfl⟩, rfl⟩
  apply lines_shown begins _ accepted
  rintro entry _ line later reached ⟨rested, rfl⟩ next
  have sound := reachable_sound (reachable_base (reachable_logged_state reached))
  have goesOn : GoesOn iterations entry line := by
    cases line with
    | created mission =>
        obtain ⟨⟨rfl, more, room⟩, _⟩ := Option.ite_none_right_eq_some.mp next
        exact created_shown sound rested more room
    | accomplished mission =>
        cases items : entry.state.queue.items with
        | nil => simp [accept, items] at next
        | cons item rest =>
            simp only [accept, items] at next
            obtain ⟨rfl, _⟩ := Option.ite_none_right_eq_some.mp next
            exact accomplished_shown sound rested items
  obtain ⟨labels, state, result, restsAgain⟩ := goesOn
  have shown : Reachable (threads iterations).system ⟨state, entry.lines ++ [line]⟩ :=
    reachable_of_run (logged_next_sound fun _ _ _ stepped => stepped) reached result
  have position := lines_of_run shown
  rw [run_append, lines_of_run reached, Option.bind_some, run, next] at position
  exact ⟨state, shown, restsAgain, (Option.some.inj position).symm⟩

/-! ## The end of a run -/

theorem finished_queue {iterations : Nat} {state : Talking} (tidy : Tidy state)
    (producer : state.base.producer = ⟨iterations, .semWait⟩)
    (consumer : state.base.consumer = ⟨iterations, .semWait⟩) :
    state.queue = ⟨iterations, []⟩ := by
  have silent : state.announced = false := by
    cases said : state.announced with
    | false => rfl
    | true =>
        have place := tidy said
        rw [producer] at place
        cases place
  simp [Talking.queue, Talking.made, producer, consumer, silent, Thread.sections]

theorem rested_finished {iterations : Nat} {state : Talking} (sound : Sound iterations state.base)
    (rested : Rested state) (empty : state.queue = ⟨iterations, []⟩) :
    state.base.producer = ⟨iterations, .semWait⟩ ∧ state.base.consumer = ⟨iterations, .semWait⟩ := by
  have available := sound.available
  obtain ⟨producer, consumer, silent⟩ := rested
  obtain ⟨⟨data, full, free, ⟨made, place⟩, ⟨taken, consumerPlace⟩, printed⟩, announced⟩ := state
  simp only at producer consumer silent available
  subst producer consumer silent
  simp only [Talking.queue, Talking.made, Thread.sections, Bool.toNat_false, Nat.add_zero,
    Queue.mk.injEq, List.range'_eq_nil_iff] at empty
  obtain ⟨rfl, none⟩ := empty
  simp only [Thread.held] at available
  obtain rfl : taken = made := by omega
  exact ⟨rfl, rfl⟩

def turns (iterations : Nat) (thread : Thread) : Nat :=
  match thread.place with
  | .semWait => 4 * (iterations - thread.index)
  | .locked => 4 * (iterations - (thread.index + 1)) + 3
  | .semPost => 4 * (iterations - (thread.index + 1)) + 2

theorem turns_lower {iterations : Nat} {thread after : Thread}
    (turn : Turn iterations thread after) :
    turns iterations after < turns iterations thread ∧
      (thread.place = .semPost → turns iterations after + 1 < turns iterations thread) := by
  cases turn with
  | wait more =>
      simp only [turns, reduceCtorEq, false_imp_iff, and_true]
      omega
  | work index => simp [turns]
  | post index => simp [turns]

def work (iterations : Nat) (entry : Logged Talking Line) : Nat :=
  turns iterations entry.state.base.producer + turns iterations entry.state.base.consumer +
    (1 - entry.state.announced.toNat)

theorem work_lowers {iterations : Nat} {entry after : Logged Talking Line} {label : Label}
    (tidy : Tidy entry.state)
    (stepped : entry.state.advance iterations label = some after.state) :
    work iterations after < work iterations entry := by
  unfold work
  rcases advance_cases stepped with
    ⟨_, printing, same⟩ | ⟨_, _, reset, result⟩ | ⟨_, same, result⟩
  · rw [same, printing.2]
    exact Nat.lt_succ_self _
  · obtain ⟨turn, frame⟩ := producer_turn result
    obtain ⟨lower, further⟩ := turns_lower turn
    rw [frame, reset]
    cases said : entry.state.announced with
    | false => exact Nat.add_lt_add_right (Nat.add_lt_add_right lower _) _
    | true =>
        have twice := further (tidy said)
        simp only [Bool.toNat_false, Bool.toNat_true]
        omega
  · obtain ⟨turn, frame⟩ := consumer_turn result
    rw [frame, same]
    exact Nat.add_lt_add_right (Nat.add_lt_add_left (turns_lower turn).1 _) _

theorem threads_go_on {iterations : Nat} (entry : Logged Talking Line)
    (reached : Reachable (threads iterations).system entry) :
    (∀ id, id < (threads iterations).count → (threads iterations).done id entry = true) ∨
      ∃ label after, ¬ False ∧ (threads iterations).system.step entry label after := by
  have moves : ∀ label after, entry.state.advance iterations label = some after →
      ∃ label after, ¬ False ∧ (threads iterations).system.step entry label after := by
    intro label after stepped
    exact ⟨label, ⟨after, entry.lines ++ entry.state.shows label⟩, not_false, stepped, rfl⟩
  rcases (reachable_sound (reachable_base (reachable_logged_state reached))).progress with
    ⟨⟨place, index⟩, consumerPlace, consumerIndex⟩ | ⟨label, after, result⟩
  · refine Or.inl (done_finished.mpr ⟨?_, ?_⟩)
    · rw [← index, ← place]
    · rw [← consumerIndex, ← consumerPlace]
  · right
    cases label with
    | producer =>
        by_cases printing : entry.state.Printing
        · exact moves .producer _ (if_pos printing)
        · apply moves .producer ⟨after, false⟩
          rw [Talking.advance, if_neg printing]
          exact Option.map_eq_some_iff.mpr ⟨after, result, rfl⟩
    | consumer =>
        apply moves .consumer { entry.state with base := after }
        exact Option.map_eq_some_iff.mpr ⟨after, result, rfl⟩

def program (iterations : Nat) : System (Program (Logged Talking Line)) (Option Label) :=
  (threads iterations).program

/-- What the program can print, on the way and in the end, is what can happen to a queue of
`BUF_SIZE` missions; and every run ends with `main` returning. -/
theorem queue_histories_exact (iterations : Nat) :
    (∀ lines, (∃ state, Reachable (program iterations) state ∧ state.threads.lines = lines) ↔
        (run (accept iterations) ⟨0, []⟩ lines).isSome = true) ∧
      (∀ lines, (∃ state, Reachable (program iterations) state ∧ state.main = .returned ∧
          state.threads.lines = lines) ↔
        run (accept iterations) ⟨0, []⟩ lines = some ⟨iterations, []⟩) ∧
      (∀ state, Reachable (program iterations) state → state.main = .returned ∨
        ∃ label after, (program iterations).step state label after) ∧
      ∀ states, ¬ InfiniteRun (program iterations) states := by
  refine ⟨?_, ?_, ?_, ?_⟩
  · intro lines
    constructor
    · rintro ⟨state, reached, rfl⟩
      rw [lines_of_run (Threads.reachable_threads reached)]
      rfl
    · intro accepted
      obtain ⟨queue, result⟩ := Option.isSome_iff_exists.mp accepted
      obtain ⟨state, reached, _⟩ := run_of_lines result
      exact ⟨_, Threads.reachable_joining (threads_regular iterations) reached, rfl⟩
  · intro lines
    constructor
    · rintro ⟨state, reached, returned, rfl⟩
      have threadsReached := Threads.reachable_threads reached
      obtain ⟨producer, consumer⟩ := done_finished.mp
        (Threads.returned_done (threads_regular iterations) reached returned)
      rw [lines_of_run threadsReached]
      have tidy := reachable_tidy (reachable_logged_state threadsReached)
      exact congrArg some (finished_queue tidy producer consumer)
    · intro accepted
      obtain ⟨state, reached, rested, empty⟩ := run_of_lines accepted
      have sound := reachable_sound (reachable_base (reachable_logged_state reached))
      have finished := done_finished.mpr (rested_finished sound rested empty)
      exact ⟨_, Threads.reachable_returned (threads_regular iterations) reached finished, rfl, rfl⟩
  · intro state reached
    rcases Threads.program_goes_on (threads_regular iterations) threads_go_on reached with
      returned | ⟨label, after, taken, _⟩
    · exact Or.inl returned
    · exact Or.inr ⟨label, after, taken⟩
  · intro states endless
    have lowers : ∀ entry label after, Reachable (threads iterations).system entry →
        (threads iterations).system.step entry label after → ¬ False →
          work iterations after < work iterations entry :=
      fun _ _ _ prior taken _ =>
        work_lowers (reachable_tidy (reachable_logged_state prior)) taken.1
    obtain ⟨_, _, _, never, _⟩ :=
      Threads.program_recurs (threads_regular iterations) (work iterations) lowers endless 0
    exact never

end LinuxSystemPrograms.SemProConTranscript
