import LinuxSystemPrograms.CString
import LinuxSystemPrograms.MessageQueue
import LinuxSystemPrograms.Sockets
import LinuxSystemPrograms.Transition

/-!
# `mq_producer.c` and `mq_consumer.c`

The producer sends what each `read` gives it as one message, up to the first zero byte, and one
byte `EOF` at the end of its input. The consumer copies every message to the start of the same
buffer and prints the buffer as a string. A step is one system call of one of the programs,
with what the program does until the next one; `none` is a call that waits, or an access
outside a buffer.
-/

namespace LinuxSystemPrograms.MqProducerConsumer

open LinuxSystemPrograms.CharArray
open LinuxSystemPrograms.CString
open LinuxSystemPrograms.MessageQueue
open LinuxSystemPrograms.Sockets
open LinuxSystemPrograms.Transition

set_option autoImplicit false

def mqMsgsize : Nat := 256

def mqMaxmsg : Nat := 10

def eof : Int := -1

/-- The value of a `char`, which is signed. -/
def charValue (char : Byte) : Int := char.toInt8.toInt

def charOf (value : Int) : Byte := (Int8.ofInt value).toUInt8

abbrev Buffer := List.Vector Byte mqMsgsize

abbrev Message := MessageQueue.Message Byte mqMsgsize

def zeros : Buffer := List.Vector.replicate mqMsgsize 0

def readInto (chunk : List Byte) (bounded : chunk.length ≤ mqMsgsize) : Buffer :=
  memcpy zeros 0 chunk (by omega)

/-- The first `strlen(send_buf)` bytes of `send_buf`. -/
def outgoing (sendBuf : Buffer) : Option Message :=
  (strlen 0 sendBuf).map fun length => ⟨sendBuf.toList.take length, by
    rw [List.length_take, List.Vector.toList_length]
    exact Nat.min_le_right _ _⟩

/-- `char eof = EOF`, a message of one byte. -/
def marker : Message := ⟨[charOf eof], by decide⟩

/-- The next call of the producer, or how it has ended. -/
inductive Producer where
  | reading
  | sending (message : Message)
  | ending
  | finished
  | failed

inductive Consumer where
  | receiving
  | left
  | failed
  deriving DecidableEq, Repr

/-- `input` are the results of the `read` calls to come; `received` and `printed` are what the
consumer has got from the queue and what it has printed behind `message:`. -/
structure State where
  input : List (List Byte)
  producer : Producer
  queue : Queue Byte mqMsgsize mqMaxmsg
  consumer : Consumer
  receiveBuf : Buffer
  received : List (List Byte)
  printed : List (List Byte)

inductive Label where
  | producer
  | consumer
  | readFails
  | sendExpires
  | receiveExpires
  deriving DecidableEq, Repr

/-- `read`, which returns 0 at the end of the input, or the next `mq_timedsend`. -/
def produce (state : State) : Option State :=
  match state.producer with
  | .reading =>
      match state.input with
      | [] => some { state with producer := .ending }
      | [] :: rest => some { state with input := rest, producer := .ending }
      | chunk :: rest =>
          if bounded : chunk.length ≤ mqMsgsize then
            (outgoing (readInto chunk bounded)).map fun message =>
              { state with input := rest, producer := .sending message }
          else none
  | .sending message =>
      (state.queue.send message).map fun queue =>
        { state with queue := queue, producer := .reading }
  | .ending =>
      (state.queue.send marker).map fun queue =>
        { state with queue := queue, producer := .finished }
  | .finished => none
  | .failed => none

/-- `mq_timedreceive`, the test of `receive_buf[0]` and `printf`. -/
def consume (state : State) : Option State :=
  match state.consumer with
  | .receiving =>
      match state.queue.receive with
      | none => none
      | some (message, queue) =>
          let receiveBuf := memcpy state.receiveBuf 0 message.body
            ((Nat.zero_add _).trans_le message.bounded)
          let received := state.received ++ [message.body]
          if charValue (receiveBuf.get ⟨0, by decide⟩) = eof then
            some { state with
              queue := queue
              consumer := .left
              receiveBuf := receiveBuf
              received := received }
          else
            (string 0 receiveBuf).map fun line =>
              { state with
                queue := queue
                receiveBuf := receiveBuf
                received := received
                printed := state.printed ++ [line] }
  | .left => none
  | .failed => none

/-- A call expires only where it has to wait; the producer does not look at the last one. -/
def advance (state : State) : Label → Option State
  | .producer => produce state
  | .consumer => consume state
  | .readFails =>
      match state.producer with
      | .reading => some { state with producer := .failed }
      | _ => none
  | .sendExpires =>
      if state.queue.messages.length = mqMaxmsg then
        match state.producer with
        | .sending _ => some { state with producer := .failed }
        | .ending => some { state with producer := .finished }
        | _ => none
      else none
  | .receiveExpires =>
      if state.queue.messages = [] ∧ state.consumer = .receiving then
        some { state with consumer := .failed }
      else none

def boot (chunks : List (List Byte)) (receiveBuf : Buffer) : State where
  input := chunks
  producer := .reading
  queue := .empty
  consumer := .receiving
  receiveBuf := receiveBuf
  received := []
  printed := []

def system (chunks : List (List Byte)) (receiveBuf : Buffer) : System State Label where
  init state := state = boot chunks receiveBuf
  step state label after := advance state label = some after

def undisturbed (_ : State) (label : Label) : Prop := label = .producer ∨ label = .consumer

instance (state : State) (label : Label) : Decidable (undisturbed state label) :=
  inferInstanceAs (Decidable (_ ∨ _))

/-- The runs in which both programs get what they ask for. -/
def smooth (chunks : List (List Byte)) (receiveBuf : Buffer) : System State Label :=
  guarded (system chunks receiveBuf) undisturbed

/-! ## One step of each program -/

/-- The test that ends the consumer's loop, on a message that is not empty. -/
def EndsLoop (body : List Byte) : Prop := body.head? = some (charOf eof)

instance (body : List Byte) : Decidable (EndsLoop body) := inferInstanceAs (Decidable (_ = _))

theorem char_value_eq_eof {char : Byte} : charValue char = eof ↔ char = charOf eof := by
  constructor
  · intro same
    have value : char.toInt8 = Int8.ofInt eof := by
      rw [← Int8.toInt_inj]
      exact same
    rw [charOf, ← value, UInt8.toUInt8_toInt8]
  · rintro rfl
    decide

/-- The first cell of the buffer is the first byte of the message. -/
theorem ends_loop_iff (receiveBuf : Buffer) {body : List Byte} (nonempty : body ≠ [])
    (inside : 0 + body.length ≤ mqMsgsize) :
    charValue ((memcpy receiveBuf 0 body inside).get ⟨0, by decide⟩) = eof ↔ EndsLoop body := by
  have first : some ((memcpy receiveBuf 0 body inside).get ⟨0, by decide⟩) = body.head? := by
    rw [List.Vector.get_eq_get_toList, List.get_eq_getElem, ← List.getElem?_eq_getElem]
    simp only [memcpy_cells, overlay, Fin.val_cast]
    rw [← List.head?_eq_getElem?, List.head?_append_of_ne_nil _ nonempty]
  rw [char_value_eq_eof, EndsLoop, ← first, Option.some.injEq]

/-- What a `read` may return for `send_buf` to hold a string of its own. -/
structure Typed (chunk : List Byte) : Prop where
  nonempty : chunk ≠ []
  short : chunk.length < mqMsgsize
  absent : 0 ∉ chunk

theorem outgoing_typed {chunk : List Byte} (typed : Typed chunk)
    (bounded : chunk.length ≤ mqMsgsize) :
    ∃ message, outgoing (readInto chunk bounded) = some message ∧ message.body = chunk := by
  have padded : Padded 0 mqMsgsize (readInto chunk bounded).toList chunk := by
    rw [readInto, memcpy_cells]
    have cleared : Padded (0 : Byte) mqMsgsize zeros.toList [] := Padded.zeros 0 (by decide)
    simpa [overlay] using cleared.overlay typed.absent typed.short
  have shown : string 0 (readInto chunk bounded) = some chunk :=
    string_eq_some.mpr ⟨padded.mem, padded.text⟩
  rw [string, Option.map_eq_some_iff] at shown
  obtain ⟨length, found, taken⟩ := shown
  exact ⟨_, Option.map_eq_some_iff.mpr ⟨length, found, rfl⟩, taken⟩

def Producer.pending (producer : Producer) (input : List (List Byte)) : List (List Byte) :=
  match producer with
  | .reading => input ++ [marker.body]
  | .sending message => message.body :: (input ++ [marker.body])
  | .ending => [marker.body]
  | .finished => []
  | .failed => []

def State.ahead (state : State) : List (List Byte) :=
  state.queue.bodies ++ state.producer.pending state.input

/-- The calls that are left, with a message counted for each place it still has to pass. -/
def State.work (state : State) : Nat :=
  state.queue.bodies.length +
    match state.producer with
    | .reading => 3 * state.input.length + 3
    | .sending _ => 3 * state.input.length + 5
    | .ending => 2
    | .finished => 0
    | .failed => 0

/-- What a step of the producer does to the rest. -/
structure Produced (state after : State) : Prop where
  ahead : after.ahead = state.ahead
  work : after.work < state.work
  input : after.input ⊆ state.input
  alive : after.producer ≠ .failed
  consumer : after.consumer = state.consumer
  receiveBuf : after.receiveBuf = state.receiveBuf
  received : after.received = state.received
  printed : after.printed = state.printed

theorem produce_spec {state after : State} (typed : ∀ chunk ∈ state.input, Typed chunk)
    (result : produce state = some after) : Produced state after := by
  unfold produce at result
  split at result
  case h_1 place =>
    split at result
    case h_1 noMore =>
      rw [← Option.some.inj result]
      constructor
      case ahead => simp only [State.ahead, Producer.pending, place, noMore, List.nil_append]
      case work =>
        simp only [State.work, place, noMore, List.length_nil]
        omega
      case input => exact List.Subset.refl _
      case alive => exact Producer.noConfusion
      case consumer | receiveBuf | received | printed => rfl
    case h_2 rest more =>
      exact absurd rfl (typed [] (by rw [more]; exact List.mem_cons_self)).nonempty
    case h_3 chunk rest _ more =>
      have own : Typed chunk := typed chunk (by rw [more]; exact List.mem_cons_self)
      rw [dif_pos own.short.le] at result
      obtain ⟨message, sent, same⟩ := outgoing_typed own own.short.le
      rw [sent, Option.map_some, Option.some.injEq] at result
      rw [← result]
      constructor
      case ahead =>
        simp only [State.ahead, Producer.pending, place, more, same, List.cons_append]
      case work =>
        simp only [State.work, place, more, List.length_cons]
        omega
      case input =>
        rw [more]
        exact List.subset_cons_self chunk rest
      case alive => exact Producer.noConfusion
      case consumer | receiveBuf | received | printed => rfl
  case h_2 message place =>
    obtain ⟨queue, sent, rfl⟩ := Option.map_eq_some_iff.mp result
    have bodies := Queue.send_bodies sent
    constructor
    case ahead =>
      simp only [State.ahead, Producer.pending, place, bodies, List.append_assoc,
        List.singleton_append]
    case work =>
      simp only [State.work, place, bodies, List.length_append, List.length_singleton]
      omega
    case input => exact List.Subset.refl _
    case alive => exact Producer.noConfusion
    case consumer | receiveBuf | received | printed => rfl
  case h_3 place =>
    obtain ⟨queue, sent, rfl⟩ := Option.map_eq_some_iff.mp result
    have bodies := Queue.send_bodies sent
    constructor
    case ahead =>
      simp only [State.ahead, Producer.pending, place, bodies, List.append_nil]
    case work =>
      simp only [State.work, place, bodies, List.length_append, List.length_singleton]
      omega
    case input => exact List.Subset.refl _
    case alive => exact Producer.noConfusion
    case consumer | receiveBuf | received | printed => rfl
  case h_4 => cases result
  case h_5 => cases result

/-- What a step of the consumer does with a message that is not empty. -/
structure Consumed (state after : State) (body : List Byte) : Prop where
  receiving : state.consumer = .receiving
  queue : state.queue.bodies = body :: after.queue.bodies
  input : after.input = state.input
  producer : after.producer = state.producer
  received : after.received = state.received ++ [body]
  cells : after.receiveBuf.toList = overlay state.receiveBuf.toList body
  outcome : EndsLoop body ∧ after.consumer = .left ∧ after.printed = state.printed ∨
    ¬ EndsLoop body ∧ after.consumer = .receiving ∧
      0 ∈ after.receiveBuf.toList ∧
      after.printed = state.printed ++ [text 0 (overlay state.receiveBuf.toList body)]

/-- The test of the consumer on the message at the front of the queue. -/
theorem test_taken {state : State} {message : Message} {queue : Queue Byte mqMsgsize mqMaxmsg}
    (nonempty : ∀ body ∈ state.queue.bodies, body ≠ [])
    (taken : state.queue.receive = some (message, queue))
    (inside : 0 + message.body.length ≤ mqMsgsize) :
    charValue ((memcpy state.receiveBuf 0 message.body inside).get ⟨0, by decide⟩) = eof ↔
      EndsLoop message.body := by
  have notEmpty : message.body ≠ [] := by
    apply nonempty
    rw [Queue.receive_bodies taken]
    exact List.mem_cons_self
  exact ends_loop_iff state.receiveBuf notEmpty inside

theorem consume_spec {state after : State} (nonempty : ∀ body ∈ state.queue.bodies, body ≠ [])
    (result : consume state = some after) : ∃ body, Consumed state after body := by
  unfold consume at result
  split at result
  case h_1 receiving =>
    split at result
    case h_1 => cases result
    case h_2 message queue taken =>
      have bodies := Queue.receive_bodies taken
      have inside : 0 + message.body.length ≤ mqMsgsize :=
        (Nat.zero_add _).trans_le message.bounded
      have test := test_taken nonempty taken inside
      refine ⟨message.body, ?_⟩
      by_cases ends : EndsLoop message.body
      · rw [if_pos (test.mpr ends), Option.some.injEq] at result
        rw [← result]
        exact ⟨receiving, bodies, rfl, rfl, rfl, memcpy_cells _ inside,
          Or.inl ⟨ends, rfl, rfl⟩⟩
      · rw [if_neg (mt test.mp ends)] at result
        obtain ⟨line, shown, rfl⟩ := Option.map_eq_some_iff.mp result
        obtain ⟨member, same⟩ := string_eq_some.mp shown
        rw [memcpy_cells] at same
        refine ⟨receiving, bodies, rfl, rfl, rfl, memcpy_cells _ inside, Or.inr ?_⟩
        exact ⟨ends, receiving, member, by rw [same]⟩
  case h_2 => cases result
  case h_3 => cases result

theorem consume_defined {state : State} (receiving : state.consumer = .receiving)
    (waiting : state.queue.messages ≠ [])
    (nonempty : ∀ body ∈ state.queue.bodies, body ≠ [])
    (terminated : ∀ body more, state.queue.bodies = body :: more → ¬ EndsLoop body →
      0 ∈ overlay state.receiveBuf.toList body) : ∃ after, consume state = some after := by
  obtain ⟨message, queue, taken⟩ := Queue.receive_of_nonempty waiting
  have bodies := Queue.receive_bodies taken
  have inside : 0 + message.body.length ≤ mqMsgsize :=
    (Nat.zero_add _).trans_le message.bounded
  have test := test_taken nonempty taken inside
  simp only [consume, receiving, taken]
  by_cases ends : EndsLoop message.body
  · rw [if_pos (test.mpr ends)]
    exact ⟨_, rfl⟩
  · have member : 0 ∈ (memcpy state.receiveBuf 0 message.body inside).toList := by
      rw [memcpy_cells]
      exact terminated _ _ bodies ends
    rw [if_neg (mt test.mp ends), string_eq_some.mpr ⟨member, rfl⟩]
    exact ⟨_, rfl⟩

theorem produce_defined {state : State} (typed : ∀ chunk ∈ state.input, Typed chunk)
    (busy : state.producer ≠ .finished) (alive : state.producer ≠ .failed)
    (room : state.queue.messages.length < mqMaxmsg) : ∃ after, produce state = some after := by
  unfold produce
  cases place : state.producer with
  | reading =>
      match more : state.input with
      | [] => exact ⟨_, rfl⟩
      | [] :: rest => exact ⟨_, rfl⟩
      | (byte :: tail) :: rest =>
          have own : Typed (byte :: tail) := typed _ (by rw [more]; exact List.mem_cons_self)
          obtain ⟨message, sent, _⟩ := outgoing_typed own own.short.le
          simp only [dif_pos own.short.le, sent]
          exact ⟨_, rfl⟩
  | sending message =>
      obtain ⟨queue, sent⟩ := Queue.send_of_room message room
      simp only [sent]
      exact ⟨_, rfl⟩
  | ending =>
      obtain ⟨queue, sent⟩ := Queue.send_of_room marker room
      simp only [sent]
      exact ⟨_, rfl⟩
  | finished => exact absurd place busy
  | failed => exact absurd place alive

end LinuxSystemPrograms.MqProducerConsumer
