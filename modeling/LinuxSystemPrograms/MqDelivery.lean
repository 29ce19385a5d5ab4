import LinuxSystemPrograms.MqProducerConsumer
import Mathlib.Data.List.Chain

/-!
# What the message queue programs make of their input

While no call expires the messages arrive in order and every run comes to its end. What the
consumer prints depends on the lengths of the messages before, and where it ends on their first
bytes.
-/

namespace LinuxSystemPrograms.MqDelivery

open LinuxSystemPrograms.CString
open LinuxSystemPrograms.MessageQueue
open LinuxSystemPrograms.MqProducerConsumer
open LinuxSystemPrograms.Sockets
open LinuxSystemPrograms.Transition

set_option autoImplicit false

/-! ## Every run -/

theorem marker_typed : Typed marker.body where
  nonempty := by decide
  short := by decide
  absent := by decide

theorem marker_ends_loop : EndsLoop marker.body := rfl

/-- What the consumer has printed for the messages `before`, and where it is now. -/
structure Heard (start : Buffer) (state : State) (before : List (List Byte)) : Prop where
  plain : ∀ body ∈ before, ¬ EndsLoop body
  printed : state.printed = (displayed start.toList before).map (text 0)
  ended : before = [] ∨ 0 ∈ before.foldl overlay start.toList
  place : state.consumer = .receiving ∧ state.received = before ∨
    state.consumer = .left ∧ ∃ last, EndsLoop last ∧ state.received = before ++ [last]

/-- The messages reach the consumer in the order of the `read` calls, the marker behind them. -/
structure Conveyed (chunks : List (List Byte)) (start : Buffer) (state : State) : Prop where
  stream : chunks ++ [marker.body] = state.received ++ state.ahead
  typed : ∀ chunk ∈ state.input, Typed chunk
  alive : state.producer ≠ .failed
  cells : state.receiveBuf.toList = state.received.foldl overlay start.toList
  heard : ∃ before, Heard start state before

section Runs

variable {chunks : List (List Byte)} {start : Buffer} {state after : State}

theorem stream_typed (typed : ∀ chunk ∈ chunks, Typed chunk) :
    ∀ body ∈ chunks ++ [marker.body], Typed body := by
  intro body member
  rcases List.mem_append.mp member with own | last
  · exact typed body own
  · rw [List.mem_singleton.mp last]
    exact marker_typed

theorem Conveyed.queued (conveyed : Conveyed chunks start state)
    (typed : ∀ chunk ∈ chunks, Typed chunk) : ∀ body ∈ state.queue.bodies, Typed body := by
  intro body member
  apply stream_typed typed
  rw [conveyed.stream, State.ahead]
  exact List.mem_append_right _ (List.mem_append_left _ member)

theorem boot_conveyed (typed : ∀ chunk ∈ chunks, Typed chunk) (start : Buffer) :
    Conveyed chunks start (boot chunks start) where
  stream := rfl
  typed := typed
  alive := by
    intro failed
    cases failed
  cells := rfl
  heard := by
    refine ⟨[], ?_, rfl, Or.inl rfl, Or.inl ⟨rfl, rfl⟩⟩
    intro body member
    cases member

theorem produce_conveyed (conveyed : Conveyed chunks start state)
    (result : produce state = some after) : Conveyed chunks start after := by
  have produced := produce_spec conveyed.typed result
  constructor
  case stream => rw [produced.received, produced.ahead, conveyed.stream]
  case typed => exact fun chunk member => conveyed.typed chunk (produced.input member)
  case alive => exact produced.alive
  case cells => rw [produced.receiveBuf, produced.received, conveyed.cells]
  case heard =>
    obtain ⟨before, heard⟩ := conveyed.heard
    refine ⟨before, heard.plain, ?_, heard.ended, ?_⟩
    · rw [produced.printed, heard.printed]
    · rw [produced.consumer, produced.received]
      exact heard.place

theorem consume_conveyed (typed : ∀ chunk ∈ chunks, Typed chunk)
    (conveyed : Conveyed chunks start state) (result : consume state = some after) :
    Conveyed chunks start after := by
  obtain ⟨body, consumed⟩ :=
    consume_spec (fun body member => (conveyed.queued typed body member).nonempty) result
  have cells : after.receiveBuf.toList = after.received.foldl overlay start.toList := by
    rw [consumed.cells, consumed.received, List.foldl_concat, conveyed.cells]
  constructor
  case stream =>
    rw [conveyed.stream, State.ahead, State.ahead, consumed.queue, consumed.received,
      consumed.producer, consumed.input, List.append_assoc, List.cons_append,
      List.singleton_append]
  case typed =>
    rw [consumed.input]
    exact conveyed.typed
  case alive =>
    rw [consumed.producer]
    exact conveyed.alive
  case cells => exact cells
  case heard =>
    obtain ⟨before, heard⟩ := conveyed.heard
    rcases heard.place with ⟨_, received⟩ | ⟨left, _⟩
    · rcases consumed.outcome with ⟨ends, left, printed⟩ | ⟨plain, receiving, ended, printed⟩
      · refine ⟨before, heard.plain, printed.trans heard.printed, heard.ended,
          Or.inr ⟨left, body, ends, ?_⟩⟩
        rw [consumed.received, received]
      · refine ⟨before ++ [body], ?_, ?_, Or.inr ?_, Or.inl ⟨receiving, ?_⟩⟩
        · intro other member
          rcases List.mem_append.mp member with earlier | last
          · exact heard.plain other earlier
          · rw [List.mem_singleton.mp last]
            exact plain
        · rw [printed, heard.printed, displayed_concat, List.map_append, conveyed.cells, received]
          rfl
        · rw [← received, ← consumed.received, ← cells]
          exact ended
        · rw [consumed.received, received]
    · rw [consumed.receiving] at left
      cases left

theorem smooth_cases {label : Label} (taken : (smooth chunks start).step state label after) :
    produce state = some after ∨ consume state = some after := by
  obtain ⟨rfl | rfl, step⟩ := taken
  · exact Or.inl step
  · exact Or.inr step

theorem reachable_conveyed (typed : ∀ chunk ∈ chunks, Typed chunk)
    (reached : Reachable (smooth chunks start) state) : Conveyed chunks start state := by
  apply reachable_invariant _ _ reached
  · rintro _ rfl
    exact boot_conveyed typed start
  · intro state label after _ conveyed taken
    rcases smooth_cases taken with produced | consumed
    · exact produce_conveyed conveyed produced
    · exact consume_conveyed typed conveyed consumed

theorem smooth_work (typed : ∀ chunk ∈ chunks, Typed chunk) {label : Label}
    (reached : Reachable (smooth chunks start) state)
    (taken : (smooth chunks start).step state label after) : after.work < state.work := by
  have conveyed := reachable_conveyed typed reached
  rcases smooth_cases taken with produced | consumed
  · exact (produce_spec conveyed.typed produced).work
  · obtain ⟨body, spec⟩ :=
      consume_spec (fun body member => (conveyed.queued typed body member).nonempty) consumed
    rw [State.work, State.work, spec.queue, spec.producer, spec.input, List.length_cons]
    omega

/-- Some run comes to its end. -/
theorem exists_end (typed : ∀ chunk ∈ chunks, Typed chunk) (start : Buffer) :
    ∃ last, Reachable (smooth chunks start) last ∧ Halted (smooth chunks start) last :=
  exists_halted State.work (fun _ _ _ reached taken => smooth_work typed reached taken)
    (.start rfl)

theorem smooth_ends (typed : ∀ chunk ∈ chunks, Typed chunk) (start : Buffer) :
    ∀ states, ¬ InfiniteRun (smooth chunks start) states :=
  no_infinite_run State.work fun _ _ _ reached taken => smooth_work typed reached taken

theorem mem_chunks_of_plain {body : List Byte} (member : body ∈ chunks ++ [marker.body])
    (plain : ¬ EndsLoop body) : body ∈ chunks := by
  rcases List.mem_append.mp member with own | last
  · exact own
  · rw [List.mem_singleton.mp last] at plain
    exact absurd marker_ends_loop plain

/-- Only the marker itself has nothing behind it. -/
theorem marker_position {before ahead : List (List Byte)} {last : List Byte}
    (stream : chunks ++ [marker.body] = before ++ [last] ++ ahead) :
    (before = chunks ∧ ahead = []) ∨ last ∈ chunks := by
  rcases List.eq_nil_or_concat ahead with rfl | ⟨between, final, rfl⟩
  · rw [List.append_nil] at stream
    exact Or.inl ⟨(List.append_inj' stream rfl).1.symm, rfl⟩
  · rw [List.concat_eq_append, ← List.append_assoc] at stream
    rw [(List.append_inj' stream rfl).1]
    simp

/-- Nothing the consumer goes on after is the marker. -/
theorem heard_early {before : List (List Byte)} (conveyed : Conveyed chunks start state)
    (heard : Heard start state before) : before <+: chunks := by
  have early : before <+: chunks ++ [marker.body] := by
    rw [conveyed.stream]
    rcases heard.place with ⟨_, received⟩ | ⟨_, last, _, received⟩
    · rw [received]
      exact List.prefix_append _ _
    · rw [received, List.append_assoc]
      exact List.prefix_append _ _
  rcases List.prefix_concat_iff.mp early with whole | inner
  · have plain := heard.plain marker.body (by rw [whole]; exact List.mem_concat_self)
    exact absurd marker_ends_loop plain
  · exact inner

theorem printed_length {before : List (List Byte)} (heard : Heard start state before) :
    state.printed.length = before.length := by
  rw [heard.printed, List.length_map, displayed_length]

/-- Behind each message the buffer still holds a zero. -/
def Terminated (chunks : List (List Byte)) (start : Buffer) : Prop :=
  ∀ chunk ∈ chunks, 0 ∈ start.toList.drop chunk.length

/-- A message that is not the marker leaves a zero in the buffer. -/
theorem queue_terminated (typed : ∀ chunk ∈ chunks, Typed chunk)
    (terminated : Terminated chunks start) (conveyed : Conveyed chunks start state)
    (heard : ∀ body ∈ state.received, ¬ EndsLoop body) {body : List Byte}
    {more : List (List Byte)} (queued : state.queue.bodies = body :: more)
    (plain : ¬ EndsLoop body) : 0 ∈ overlay state.receiveBuf.toList body := by
  have own : ∀ other ∈ state.received ++ [body], other ∈ chunks := by
    intro other member
    apply mem_chunks_of_plain
    · rw [conveyed.stream, State.ahead, queued, List.cons_append, List.append_cons]
      exact List.mem_append_left _ member
    · rcases List.mem_append.mp member with earlier | last
      · exact heard other earlier
      · rw [List.mem_singleton.mp last]
        exact plain
  have cells : overlay state.receiveBuf.toList body =
      (state.received ++ [body]).foldl overlay start.toList := by
    rw [List.foldl_concat, conveyed.cells]
  rw [cells, mem_foldl_overlay fun other member => (typed other (own other member)).absent]
  constructor
  · exact List.mem_of_mem_drop (terminated body (own body List.mem_concat_self))
  · exact fun other member => terminated other (own other member)

theorem halted_left (typed : ∀ chunk ∈ chunks, Typed chunk) (terminated : Terminated chunks start)
    (conveyed : Conveyed chunks start state) (halted : Halted (smooth chunks start) state) :
    state.consumer = .left := by
  obtain ⟨before, heard⟩ := conveyed.heard
  rcases heard.place with ⟨receiving, received⟩ | ⟨left, _⟩
  · exfalso
    by_cases waiting : state.queue.messages = []
    · have finished : state.producer = .finished := by
        by_contra busy
        have room : state.queue.messages.length < mqMaxmsg := by
          rw [waiting]
          decide
        obtain ⟨after, produced⟩ := produce_defined conveyed.typed busy conveyed.alive room
        exact halted .producer after ⟨Or.inl rfl, produced⟩
      have whole : chunks ++ [marker.body] = before := by
        have stream := conveyed.stream
        rw [State.ahead, finished, Queue.bodies_eq_nil.mpr waiting, received] at stream
        simpa [Producer.pending] using stream
      have plain := heard.plain marker.body (by rw [← whole]; exact List.mem_concat_self)
      exact plain marker_ends_loop
    · have plain : ∀ body ∈ state.received, ¬ EndsLoop body := by
        rw [received]
        exact heard.plain
      obtain ⟨after, consumed⟩ := consume_defined receiving waiting
        (fun body member => (conveyed.queued typed body member).nonempty)
        (fun body more queued => queue_terminated typed terminated conveyed plain queued)
      exact halted .consumer after ⟨Or.inr rfl, consumed⟩
  · exact left

end Runs

/-! ## The end marker -/

/-- One line for each message that is not the marker; the consumer leaves its loop with the
marker, and nothing stays in the queue. -/
structure EndsAtMarker (chunks : List (List Byte)) (state : State) : Prop where
  printed : state.printed.length = min state.received.length chunks.length
  leaves : state.consumer = .left ↔ state.received = chunks ++ [marker.body]
  consumed : state.consumer = .left → state.queue.messages = []

/-- In every run, and no run stops before the consumer has left its loop. -/
def Unambiguous (chunks : List (List Byte)) (start : Buffer) : Prop :=
  ∀ state, Reachable (smooth chunks start) state →
    EndsAtMarker chunks state ∧ (Halted (smooth chunks start) state → state.consumer = .left)

section Marker

variable {chunks : List (List Byte)} {start : Buffer} {state : State}

theorem ends_at_marker (plain : ∀ chunk ∈ chunks, ¬ EndsLoop chunk)
    (conveyed : Conveyed chunks start state) : EndsAtMarker chunks state := by
  obtain ⟨before, heard⟩ := conveyed.heard
  have count := printed_length heard
  have early := (heard_early conveyed heard).length_le
  rcases heard.place with ⟨receiving, received⟩ | ⟨left, last, ends, received⟩
  · have notMarker : state.received ≠ chunks ++ [marker.body] := by
      intro whole
      apply heard.plain marker.body _ marker_ends_loop
      rw [← received, whole]
      exact List.mem_concat_self
    constructor
    case printed => rw [count, received, Nat.min_eq_left early]
    case leaves => simp [receiving, notMarker]
    case consumed => simp [receiving]
  · have stream := conveyed.stream
    rw [received] at stream
    rcases marker_position stream with ⟨rfl, nothing⟩ | own
    · rw [nothing, List.append_nil] at stream
      have empty : state.queue.bodies = [] := (List.append_eq_nil_iff.mp nothing).1
      constructor
      case printed =>
        rw [count, received, List.length_append, Nat.min_eq_right (Nat.le_add_right _ _)]
      case leaves => simp [left, received, stream]
      case consumed => exact fun _ => Queue.bodies_eq_nil.mp empty
    · exact absurd ends (plain last own)

theorem heard_whole {before : List (List Byte)} (heard : Heard start state before)
    (left : state.consumer = .left) (received : state.received = chunks ++ [marker.body]) :
    before = chunks := by
  rcases heard.place with ⟨receiving, _⟩ | ⟨_, last, _, split⟩
  · rw [receiving] at left
    cases left
  · rw [received] at split
    exact (List.append_inj' split rfl).1.symm

/-- Every run ends, and the end is recognised rightly exactly when no message starts like the
marker and each message leaves the buffer a string. -/
theorem end_unambiguous_iff (typed : ∀ chunk ∈ chunks, Typed chunk) (start : Buffer) :
    (∀ states, ¬ InfiniteRun (smooth chunks start) states) ∧
      (Unambiguous chunks start ↔
        (∀ chunk ∈ chunks, chunk.head? ≠ some 0xFF) ∧ Terminated chunks start) := by
  refine ⟨smooth_ends typed start, ?_⟩
  constructor
  · intro unambiguous
    obtain ⟨last, reached, halted⟩ := exists_end typed start
    obtain ⟨ends, leaves⟩ := unambiguous last reached
    have left := leaves halted
    obtain ⟨before, heard⟩ := (reachable_conveyed typed reached).heard
    have whole := heard_whole heard left (ends.leaves.mp left)
    subst whole
    refine ⟨heard.plain, ?_⟩
    rcases heard.ended with empty | zero
    · rw [empty]
      intro chunk member
      cases member
    · exact ((mem_foldl_overlay fun chunk member => (typed chunk member).absent).mp zero).2
  · rintro ⟨plain, terminated⟩ state reached
    have conveyed := reachable_conveyed typed reached
    exact ⟨ends_at_marker plain conveyed, halted_left typed terminated conveyed⟩

end Marker

/-- One step of a run in which nothing fails. -/
theorem smooth_sound (chunks : List (List Byte)) (start : Buffer) (state : State) (label : Label)
    (after : State) (result : guardedNext advance undisturbed state label = some after) :
    (smooth chunks start).step state label after :=
  guarded_next_sound undisturbed (fun _ _ _ => id) state label after result

instance (chunk : List Byte) : Decidable (Typed chunk) :=
  decidable_of_iff (chunk ≠ [] ∧ chunk.length < mqMsgsize ∧ 0 ∉ chunk)
    ⟨fun all => ⟨all.1, all.2.1, all.2.2⟩, fun typed => ⟨typed.1, typed.2, typed.3⟩⟩

def greetings : List (List Byte) := [[104, 101, 108, 108, 111], [104, 105]]

theorem end_unambiguous_iff_greetings :
    (∀ states, ¬ InfiniteRun (smooth greetings zeros) states) ∧
      (Unambiguous greetings zeros ↔
        (∀ chunk ∈ greetings, chunk.head? ≠ some 0xFF) ∧ Terminated greetings zeros) :=
  end_unambiguous_iff (by decide) zeros

/-- The labels that lead to `printf` or to the exit for the first message. -/
def firstMessage : List Label := [.producer, .producer, .consumer]

theorem message_taken_for_marker : ¬ ∀ chunks : List (List Byte),
    (∀ chunk ∈ chunks, Typed chunk) → Unambiguous chunks zeros := by
  intro always
  -- the byte 0xFF and then "x"
  have unambiguous := always [[0xFF, 120]] (by decide)
  obtain ⟨state, reached, left, unread⟩ := exists_reachable_of_run
    (smooth_sound [[0xFF, 120]] zeros) rfl firstMessage
    (fun state => state.consumer = .left ∧ state.received.length = 1)
    (by decide +kernel)
  have whole := (unambiguous state reached).1.leaves.mp left
  rw [whole] at unread
  cases unread

/-! ## What is printed -/

/-- The lines printed are the chunks read, in order, and in the end all of them are printed. -/
def PrintsTyped (chunks : List (List Byte)) : Prop :=
  ∀ state, Reachable (smooth chunks zeros) state →
    state.printed <+: chunks ∧ (Halted (smooth chunks zeros) state → state.printed = chunks)

section Printed

variable {chunks : List (List Byte)} {state : State}

theorem zeros_terminated (typed : ∀ chunk ∈ chunks, Typed chunk) : Terminated chunks zeros := by
  intro chunk member
  have short := (typed chunk member).short
  have cells : zeros.toList = List.replicate mqMsgsize 0 := rfl
  rw [cells, List.drop_replicate, List.mem_replicate]
  exact ⟨by omega, rfl⟩

theorem printed_displayed {before : List (List Byte)} (typed : ∀ chunk ∈ chunks, Typed chunk)
    (conveyed : Conveyed chunks zeros state) (heard : Heard zeros state before) :
    state.printed = displayed [] before := by
  have own : ∀ body ∈ before, Typed body :=
    fun body member => typed body ((heard_early conveyed heard).subset member)
  have cleared : Padded (0 : Byte) mqMsgsize zeros.toList [] := Padded.zeros 0 (by decide)
  rw [heard.printed, cleared.displayed (fun body member => (own body member).absent)
    (fun body member => (own body member).short)]

theorem displayed_nil_iff (bodies : List (List Byte)) :
    displayed [] bodies = bodies ↔
      List.IsChain (fun earlier later => earlier.length ≤ later.length) bodies := by
  rw [displayed_eq_self_iff]
  cases bodies with
  | nil => simp
  | cons body rest => simp

/-- At the end of a run every chunk has been heard. -/
theorem halted_heard (typed : ∀ chunk ∈ chunks, Typed chunk)
    (plain : ∀ chunk ∈ chunks, chunk.head? ≠ some 0xFF)
    (reached : Reachable (smooth chunks zeros) state)
    (halted : Halted (smooth chunks zeros) state) : Heard zeros state chunks := by
  have conveyed := reachable_conveyed typed reached
  have left := halted_left typed (zeros_terminated typed) conveyed halted
  have received := (ends_at_marker plain conveyed).leaves.mp left
  obtain ⟨before, heard⟩ := conveyed.heard
  rwa [heard_whole heard left received] at heard

/-- Every run ends, and what is printed is what was typed exactly when no chunk is shorter than
the one before it. -/
theorem prints_typed_iff (typed : ∀ chunk ∈ chunks, Typed chunk)
    (plain : ∀ chunk ∈ chunks, chunk.head? ≠ some 0xFF) :
    (∀ states, ¬ InfiniteRun (smooth chunks zeros) states) ∧
      (PrintsTyped chunks ↔
        List.IsChain (fun earlier later => earlier.length ≤ later.length) chunks) := by
  refine ⟨smooth_ends typed zeros, ?_⟩
  constructor
  · intro prints
    obtain ⟨last, reached, halted⟩ := exists_end typed zeros
    have heard := halted_heard typed plain reached halted
    have shown := printed_displayed typed (reachable_conveyed typed reached) heard
    rw [(prints last reached).2 halted] at shown
    exact (displayed_nil_iff chunks).mp shown.symm
  · intro growing state reached
    have conveyed := reachable_conveyed typed reached
    constructor
    · obtain ⟨before, heard⟩ := conveyed.heard
      have early := heard_early conveyed heard
      have shown := printed_displayed typed conveyed heard
      obtain ⟨more, rfl⟩ := early
      rw [(displayed_nil_iff before).mpr (List.isChain_append.mp growing).1] at shown
      rw [shown]
      exact List.prefix_append before more
    · intro halted
      have heard := halted_heard typed plain reached halted
      rw [printed_displayed typed conveyed heard]
      exact (displayed_nil_iff chunks).mpr growing

end Printed

theorem prints_typed_iff_greetings :
    (∀ states, ¬ InfiniteRun (smooth greetings zeros) states) ∧
      (PrintsTyped greetings ↔
        List.IsChain (fun earlier later => earlier.length ≤ later.length) greetings) :=
  prints_typed_iff (by decide) (by decide)

/-- "hillo" is printed for "hi". -/
theorem short_message_printed_with_rest : ¬ ∀ chunks : List (List Byte),
    (∀ chunk ∈ chunks, Typed chunk) → (∀ chunk ∈ chunks, chunk.head? ≠ some 0xFF) →
      PrintsTyped chunks := by
  intro always
  have prints := always greetings (by decide) (by decide)
  obtain ⟨state, reached, printed⟩ := exists_reachable_of_run
    (smooth_sound greetings zeros) rfl (firstMessage ++ firstMessage)
    (fun state => state.printed = [[104, 101, 108, 108, 111], [104, 105, 108, 108, 111]])
    (by decide +kernel)
  have early := (prints state reached).1
  rw [printed] at early
  exact absurd early (by decide)

end LinuxSystemPrograms.MqDelivery
