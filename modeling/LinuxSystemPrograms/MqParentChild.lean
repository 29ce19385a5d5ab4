import LinuxSystemPrograms.CString
import LinuxSystemPrograms.Decimal
import LinuxSystemPrograms.MessageQueue
import LinuxSystemPrograms.Sockets
import LinuxSystemPrograms.Transition

/-!
# `mq_p&s.c`

Parent and child from the `fork` on, on one queue with room for as many messages as there
are. A step is a call of `mq_send` or `mq_receive` with the rest of its iteration, or one of
the calls `waitpid` and `mq_unlink` at the end; `mq_close` concerns the caller's descriptor
only. A label says whether the call succeeds; a call that cannot go on does not succeed.
-/

namespace LinuxSystemPrograms.MqParentChild

open LinuxSystemPrograms.CharArray
open LinuxSystemPrograms.CString
open LinuxSystemPrograms.MessageQueue
open LinuxSystemPrograms.Sockets
open LinuxSystemPrograms.Transition

set_option autoImplicit false

def mqMaxmsg : Nat := 10

def mqMsgsize : Nat := 128

abbrev Buffer := List.Vector Byte mqMsgsize

abbrev Message := MessageQueue.Message Byte mqMsgsize

def cleared : Buffer := List.Vector.replicate mqMsgsize 0

def messageText (i : Nat) : List Byte :=
  "这是第".toUTF8.data.toList ++ Decimal.ofInt (i + 1) ++ "条消息\n".toUTF8.data.toList

/-- The text and its end; no value where `sprintf` would leave the buffer. -/
def sprintf (buffer : Buffer) (text : List Byte) : Option Buffer :=
  checkedMemcpy buffer 0 (text ++ [0])

/-- The first `strlen(a_buf) + 1` bytes of `a_buf`. -/
def outgoing (buffer : Buffer) : Option Message :=
  (strlen 0 buffer).map fun length => ⟨buffer.toList.take (length + 1), by
    rw [List.length_take, List.Vector.toList_length]
    exact Nat.min_le_right _ _⟩

def compose (i : Nat) : Option Message := (sprintf cleared (messageText i)).bind outgoing

/-- What the child shows of a message behind its own words. -/
def shown (message : Message) : Option (List Byte) :=
  string 0 (memcpy cleared 0 message.body ((Nat.zero_add _).trans_le message.bounded))

inductive ParentPlace where
  | send (i : Nat)
  | waitpid
  | unlink
  | returned
  deriving DecidableEq, Repr

inductive ChildPlace where
  | receive (i : Nat)
  | exited (success : Bool)
  deriving DecidableEq, Repr

/-- `send` is a call of `mq_send` with its success, `got` a line of the child. -/
inductive Event where
  | send (i : Nat) (success : Bool)
  | got (text : List Byte)
  | receiveFailed
  | waitFailed
  | unlinkFailed
  deriving DecidableEq, Repr

structure State where
  queue : Queue Byte mqMsgsize mqMaxmsg
  parent : ParentPlace
  child : ChildPlace
  linked : Bool
  events : List Event

inductive Label where
  | parent (success : Bool)
  | child (success : Bool)
  deriving DecidableEq, Repr

def ParentPlace.loop (i : Nat) : ParentPlace := if i < mqMaxmsg then .send i else .waitpid

def ChildPlace.loop (i : Nat) : ChildPlace := if i < mqMaxmsg then .receive i else .exited true

/-- No failure is looked at but that of `mq_send`, after which the loop goes on too. -/
def parentStep (state : State) (success : Bool) : Option State :=
  match state.parent with
  | .send i =>
      if success then do
        let message ← compose i
        let queue ← state.queue.send message
        return { state with
          queue := queue
          parent := .loop (i + 1)
          events := state.events ++ [.send i true] }
      else some { state with
        parent := .loop (i + 1)
        events := state.events ++ [.send i false] }
  | .waitpid =>
      if success then
        match state.child with
        | .receive _ => none
        | .exited _ => some { state with parent := .unlink }
      else some { state with parent := .unlink, events := state.events ++ [.waitFailed] }
  | .unlink =>
      if success then some { state with parent := .returned, linked := false }
      else some { state with parent := .returned, events := state.events ++ [.unlinkFailed] }
  | .returned => none

/-- After a failed `mq_receive` the child exits. -/
def childStep (state : State) (success : Bool) : Option State :=
  match state.child with
  | .receive i =>
      if success then do
        let (message, queue) ← state.queue.receive
        let text ← shown message
        return { state with
          queue := queue
          child := .loop (i + 1)
          events := state.events ++ [.got text] }
      else some { state with
        child := .exited false
        events := state.events ++ [.receiveFailed] }
  | .exited _ => none

def advance (state : State) : Label → Option State
  | .parent success => parentStep state success
  | .child success => childStep state success

def boot : State where
  queue := .empty
  parent := .loop 0
  child := .loop 0
  linked := true
  events := []

def system : System State Label where
  init state := state = boot
  step state label after := advance state label = some after

/-- The iterations whose `mq_send` has succeeded. -/
def accepted (events : List Event) : List Nat :=
  events.filterMap fun
    | .send i true => some i
    | _ => none

def attempted (events : List Event) : List Nat :=
  events.filterMap fun
    | .send i _ => some i
    | _ => none

def printed (events : List Event) : List (List Byte) :=
  events.filterMap fun
    | .got text => some text
    | _ => none

theorem accepted_append (events more : List Event) :
    accepted (events ++ more) = accepted events ++ accepted more :=
  List.filterMap_append

theorem attempted_append (events more : List Event) :
    attempted (events ++ more) = attempted events ++ attempted more :=
  List.filterMap_append

theorem printed_append (events more : List Event) :
    printed (events ++ more) = printed events ++ printed more :=
  List.filterMap_append

/-! ## One message -/

theorem message_text_nul_free (i : Nat) : 0 ∉ messageText i := by
  unfold messageText
  simp only [List.mem_append, not_or]
  refine ⟨⟨by decide +kernel, ?_⟩, by decide +kernel⟩
  intro member
  have printable := Decimal.of_int_printable member
  exact absurd printable (by decide)

theorem message_text_length {i : Nat} (less : i < mqMaxmsg) :
    (messageText i).length + 1 ≤ mqMsgsize := by
  unfold mqMaxmsg at less
  have number : (Decimal.ofInt (i + 1)).length ≤ 10 + 1 :=
    Decimal.of_int_length_le (by decide) (by omega)
  have before : "这是第".toUTF8.data.toList.length = 9 := by decide +kernel
  have behind : "条消息\n".toUTF8.data.toList.length = 10 := by decide +kernel
  rw [messageText, List.length_append, List.length_append, before, behind]
  unfold mqMsgsize
  omega

/-- A string with its end at the start of a buffer. -/
theorem memcpy_string {buffer : Buffer} {text : List Byte} (free : 0 ∉ text)
    (inside : 0 + (text ++ [0]).length ≤ mqMsgsize) :
    0 ∈ (memcpy buffer 0 (text ++ [0]) inside).toList ∧
      CString.text 0 (memcpy buffer 0 (text ++ [0]) inside).toList = text ∧
      (memcpy buffer 0 (text ++ [0]) inside).toList.take (text.length + 1) = text ++ [0] := by
  rw [memcpy_cells, overlay]
  refine ⟨by simp, ?_, List.take_left' (by simp)⟩
  rw [List.append_assoc, List.singleton_append]
  exact text_of_split free

/-- Every message fits, and it is sent with the end of the string. -/
theorem compose_spec {i : Nat} (less : i < mqMaxmsg) :
    ∃ message, compose i = some message ∧ message.body = messageText i ++ [0] := by
  have length := message_text_length less
  have inside : 0 + (messageText i ++ [0]).length ≤ mqMsgsize := by
    rw [List.length_append, List.length_singleton]
    omega
  obtain ⟨member, text, front⟩ := memcpy_string (message_text_nul_free i) inside
  refine ⟨⟨messageText i ++ [0], by omega⟩, ?_, rfl⟩
  rw [compose, sprintf, checked_memcpy_inside cleared inside, Option.bind_some, outgoing,
    strlen_of_mem member, Option.map_some]
  simp only [text, front]

theorem shown_spec {message : Message} {text : List Byte} (body : message.body = text ++ [0])
    (free : 0 ∉ text) : shown message = some text := by
  obtain ⟨bytes, bounded⟩ := message
  subst body
  obtain ⟨member, same, _⟩ := memcpy_string free ((Nat.zero_add _).trans_le bounded)
  exact string_eq_some.mpr ⟨member, same⟩

/-! ## What every step keeps -/

def ParentPlace.done : ParentPlace → Nat
  | .send i => i
  | _ => mqMaxmsg

structure Sound (state : State) : Prop where
  attempts : attempted state.events = List.range state.parent.done
  bound : state.parent.done ≤ mqMaxmsg
  sending : ∀ i, state.parent = .send i → i < mqMaxmsg
  flow : ∃ taken waiting, accepted state.events = taken ++ waiting ∧
    printed state.events = taken.map messageText ∧
    state.queue.bodies = waiting.map fun i => messageText i ++ [0]
  receiving : ∀ i, state.child = .receive i → i < mqMaxmsg ∧ (printed state.events).length = i
  complete : state.child = .exited true → (printed state.events).length = mqMaxmsg
  failed : Event.receiveFailed ∈ state.events ↔ state.child = .exited false
  reaped : state.parent = .unlink ∨ state.parent = .returned →
    Event.waitFailed ∈ state.events ∨ ∃ success, state.child = .exited success
  waited : Event.waitFailed ∈ state.events → state.parent = .unlink ∨ state.parent = .returned
  linked : state.linked = false ↔
    state.parent = .returned ∧ Event.unlinkFailed ∉ state.events
  unlinked : Event.unlinkFailed ∈ state.events → state.parent = .returned

theorem loop_done {i : Nat} (bound : i ≤ mqMaxmsg) :
    (ParentPlace.loop i).done = i ∧ ∀ j, ParentPlace.loop i = .send j → j < mqMaxmsg := by
  unfold ParentPlace.loop
  split_ifs with more
  · refine ⟨rfl, ?_⟩
    rintro _ ⟨⟩
    exact more
  · exact ⟨by simp only [ParentPlace.done]; omega, by simp⟩

theorem boot_sound : Sound boot := by
  constructor
  case attempts => rfl
  case bound => decide
  case sending => exact (loop_done (Nat.zero_le _)).2
  case flow => exact ⟨[], [], rfl, rfl, rfl⟩
  case receiving =>
    rintro _ ⟨⟩
    exact ⟨by decide, rfl⟩
  case complete => rintro ⟨⟩
  case failed => decide
  case reaped => rintro (⟨⟨⟩⟩ | ⟨⟨⟩⟩)
  case waited => rintro ⟨⟩
  case linked => decide
  case unlinked => rintro ⟨⟩

/-- An iteration of the parent's loop, whether its `mq_send` has succeeded or not. -/
theorem Sound.attempt {state : State} (sound : Sound state) {i : Nat}
    (place : state.parent = .send i) (queue : Queue Byte mqMsgsize mqMaxmsg) (success : Bool)
    (flow : ∃ taken waiting, accepted (state.events ++ [.send i success]) = taken ++ waiting ∧
      printed state.events = taken.map messageText ∧
      queue.bodies = waiting.map fun i => messageText i ++ [0]) :
    Sound { state with
      queue := queue
      parent := .loop (i + 1)
      events := state.events ++ [.send i success] } := by
  have less := sound.sending i place
  obtain ⟨done, sending⟩ := loop_done (Nat.succ_le_of_lt less)
  have attempts := sound.attempts
  have waited := sound.waited
  have linked := sound.linked
  have unlinked := sound.unlinked
  rw [place] at attempts waited linked unlinked
  have same : printed (state.events ++ [.send i success]) = printed state.events := by
    rw [printed_append]
    exact List.append_nil _
  have looping : ParentPlace.loop (i + 1) ≠ .unlink ∧ ParentPlace.loop (i + 1) ≠ .returned := by
    unfold ParentPlace.loop
    split_ifs <;> simp
  constructor
  case attempts =>
    rw [attempted_append, attempts, done, List.range_succ]
    rfl
  case bound =>
    rw [done]
    exact less
  case sending => exact sending
  case flow =>
    rw [same]
    exact flow
  case receiving =>
    rw [same]
    exact sound.receiving
  case complete =>
    rw [same]
    exact sound.complete
  case failed =>
    rw [List.mem_append, ← sound.failed]
    simp
  case reaped => exact fun ending => absurd ending (not_or.mpr looping)
  case waited =>
    intro failed
    simp only [List.mem_append, List.mem_singleton, reduceCtorEq, or_false] at failed
    simpa using waited failed
  case linked =>
    exact linked.trans (iff_of_false (fun ended => by simp at ended) fun ended => looping.2 ended.1)
  case unlinked =>
    intro failed
    simp only [List.mem_append, List.mem_singleton, reduceCtorEq, or_false] at failed
    simpa using unlinked failed

/-- A step of the parent behind its loop, with a failure that concerns neither a message nor
the child, or with none. -/
theorem Sound.leave {state : State} (sound : Sound state) (place : ParentPlace) (linked : Bool)
    (failures : List Event)
    (apart : ∀ event ∈ failures, event = .waitFailed ∨ event = .unlinkFailed)
    (looped : state.parent.done = mqMaxmsg) (behind : place = .unlink ∨ place = .returned)
    (reaped : Event.waitFailed ∈ state.events ++ failures ∨
      ∃ success, state.child = .exited success)
    (gone : linked = false ↔ place = .returned ∧ Event.unlinkFailed ∉ state.events ++ failures)
    (unlinked : Event.unlinkFailed ∈ state.events ++ failures → place = .returned) :
    Sound { state with
      parent := place
      linked := linked
      events := state.events ++ failures } := by
  have done : place.done = mqMaxmsg := by rcases behind with rfl | rfl <;> rfl
  have nothing {β : Type} (f : Event → Option β) (wait : f .waitFailed = none)
      (unlink : f .unlinkFailed = none) : failures.filterMap f = [] := by
    rw [List.filterMap_eq_nil_iff]
    intro event among
    rcases apart event among with rfl | rfl
    · exact wait
    · exact unlink
  have attempts : attempted (state.events ++ failures) = attempted state.events := by
    rw [attempted_append, show attempted failures = [] from nothing _ rfl rfl, List.append_nil]
  have accepts : accepted (state.events ++ failures) = accepted state.events := by
    rw [accepted_append, show accepted failures = [] from nothing _ rfl rfl, List.append_nil]
  have prints : printed (state.events ++ failures) = printed state.events := by
    rw [printed_append, show printed failures = [] from nothing _ rfl rfl, List.append_nil]
  constructor
  case attempts =>
    rw [attempts, done, ← looped]
    exact sound.attempts
  case bound => exact done.le
  case sending =>
    rintro i sends
    rcases behind with rfl | rfl <;> cases sends
  case flow =>
    rw [accepts, prints]
    exact sound.flow
  case receiving =>
    rw [prints]
    exact sound.receiving
  case complete =>
    rw [prints]
    exact sound.complete
  case failed =>
    rw [List.mem_append, ← sound.failed]
    refine or_iff_left fun among => ?_
    rcases apart _ among with impossible | impossible <;> cases impossible
  case reaped => exact fun _ => reaped
  case waited => exact fun _ => behind
  case linked => exact gone
  case unlinked => exact unlinked

theorem send_sound {state after : State} {i : Nat} {success : Bool} (sound : Sound state)
    (place : state.parent = .send i) (taken : parentStep state success = some after) :
    Sound after := by
  simp only [parentStep, place] at taken
  obtain ⟨earlier, waiting, accepts, prints, bodies⟩ := sound.flow
  split_ifs at taken with works
  · obtain ⟨message, composed, body⟩ := compose_spec (sound.sending i place)
    rw [composed, Option.bind_eq_bind, Option.bind_some] at taken
    obtain ⟨queue, sent, same⟩ := Option.bind_eq_some_iff.mp taken
    cases same
    apply sound.attempt place
    refine ⟨earlier, waiting ++ [i], ?_, prints, ?_⟩
    · rw [accepted_append, accepts, List.append_assoc]
      rfl
    · rw [Queue.send_bodies sent, bodies, body, List.map_append]
      rfl
  · cases taken
    apply sound.attempt place
    refine ⟨earlier, waiting, ?_, prints, bodies⟩
    rw [accepted_append, accepts]
    exact List.append_nil _

theorem wait_sound {state after : State} {success : Bool} (sound : Sound state)
    (place : state.parent = .waitpid) (taken : parentStep state success = some after) :
    Sound after := by
  have looped : state.parent.done = mqMaxmsg := by rw [place]; rfl
  have unfailed : Event.unlinkFailed ∉ state.events := by
    intro failed
    rw [sound.unlinked failed] at place
    cases place
  have kept : state.linked = true := by
    rw [← Bool.not_eq_false, sound.linked, place]
    simp
  simp only [parentStep, place] at taken
  split_ifs at taken with works
  · split at taken
    case h_1 => cases taken
    case h_2 ended child =>
      cases taken
      have after := sound.leave .unlink state.linked [] (by simp) looped (Or.inl rfl)
        (Or.inr ⟨ended, child⟩) (by simp [kept]) (by simp [unfailed])
      rwa [List.append_nil] at after
  · cases taken
    exact sound.leave .unlink state.linked [.waitFailed] (by simp) looped (Or.inl rfl)
      (Or.inl (by simp)) (by simp [kept]) (by simp [unfailed])

theorem unlink_sound {state after : State} {success : Bool} (sound : Sound state)
    (place : state.parent = .unlink) (taken : parentStep state success = some after) :
    Sound after := by
  have looped : state.parent.done = mqMaxmsg := by rw [place]; rfl
  have reaped := sound.reaped (Or.inl place)
  have unfailed : Event.unlinkFailed ∉ state.events := by
    intro failed
    rw [sound.unlinked failed] at place
    cases place
  have kept : state.linked = true := by
    rw [← Bool.not_eq_false, sound.linked, place]
    simp
  simp only [parentStep, place] at taken
  split_ifs at taken with works
  · cases taken
    have after := sound.leave .returned false [] (by simp) looped (Or.inr rfl)
      (by simpa using reaped) (by simp [unfailed]) (fun _ => rfl)
    rwa [List.append_nil] at after
  · cases taken
    exact sound.leave .returned state.linked [.unlinkFailed] (by simp) looped (Or.inr rfl)
      (reaped.imp_left (List.mem_append_left _)) (by simp [kept]) (fun _ => rfl)

theorem parent_sound {state after : State} {success : Bool} (sound : Sound state)
    (taken : parentStep state success = some after) : Sound after := by
  cases place : state.parent with
  | send i => exact send_sound sound place taken
  | waitpid => exact wait_sound sound place taken
  | unlink => exact unlink_sound sound place taken
  | returned =>
    simp only [parentStep, place] at taken
    cases taken

theorem child_sound {state after : State} {success : Bool} (sound : Sound state)
    (taken : childStep state success = some after) : Sound after := by
  unfold childStep at taken
  split at taken
  case h_1 i place =>
    obtain ⟨earlier, waiting, accepts, prints, bodies⟩ := sound.flow
    obtain ⟨less, count⟩ := sound.receiving i place
    have unfailed : Event.receiveFailed ∉ state.events := by
      rw [sound.failed, place]
      simp
    have reaped : state.parent = .unlink ∨ state.parent = .returned →
        Event.waitFailed ∈ state.events := by
      intro ending
      refine (sound.reaped ending).resolve_right ?_
      rintro ⟨_, exited⟩
      rw [place] at exited
      cases exited
    split_ifs at taken with works
    · obtain ⟨⟨message, queue⟩, received, rest⟩ := Option.bind_eq_some_iff.mp taken
      have front := Queue.receive_bodies received
      rw [bodies] at front
      obtain ⟨first, others, rfl, body, behind⟩ := List.map_eq_cons_iff.mp front
      have shows := shown_spec body.symm (message_text_nul_free first)
      simp only [shows, Option.bind_eq_bind, Option.bind_some, Option.pure_def,
        Option.some.injEq] at rest
      subst rest
      have length : (printed (state.events ++ [.got (messageText first)])).length = i + 1 := by
        rw [printed_append, List.length_append, count]
        rfl
      constructor
      case attempts =>
        rw [attempted_append, sound.attempts]
        exact List.append_nil _
      case bound => exact sound.bound
      case sending => exact sound.sending
      case flow =>
        refine ⟨earlier ++ [first], others, ?_, ?_, behind.symm⟩
        · have none : accepted [.got (messageText first)] = [] := rfl
          rw [accepted_append, accepts, none, List.append_nil, List.append_assoc]
          rfl
        · rw [printed_append, prints, List.map_append]
          rfl
      case receiving =>
        intro j receives
        unfold ChildPlace.loop at receives
        split_ifs at receives with more
        cases receives
        exact ⟨more, length⟩
      case complete =>
        intro exits
        unfold ChildPlace.loop at exits
        split_ifs at exits with more
        rw [length]
        omega
      case failed =>
        apply iff_of_false
        · simpa using unfailed
        · unfold ChildPlace.loop
          split_ifs <;> simp
      case reaped => exact fun ending => Or.inl (List.mem_append_left _ (reaped ending))
      case waited => simpa using sound.waited
      case linked => simpa using sound.linked
      case unlinked => simpa using sound.unlinked
    · cases taken
      have same : printed (state.events ++ [.receiveFailed]) = printed state.events := by
        rw [printed_append]
        exact List.append_nil _
      constructor
      case attempts =>
        rw [attempted_append, sound.attempts]
        exact List.append_nil _
      case bound => exact sound.bound
      case sending => exact sound.sending
      case flow =>
        refine ⟨earlier, waiting, ?_, by rw [same, prints], bodies⟩
        rw [accepted_append, accepts]
        exact List.append_nil _
      case receiving => rintro _ ⟨⟩
      case complete => rintro ⟨⟩
      case failed => simp
      case reaped => exact fun ending => Or.inl (List.mem_append_left _ (reaped ending))
      case waited => simpa using sound.waited
      case linked => simpa using sound.linked
      case unlinked => simpa using sound.unlinked
  case h_2 ended place => cases taken

theorem reachable_sound {state : State} (reached : Reachable system state) : Sound state := by
  apply reachable_invariant _ _ reached
  · rintro _ rfl
    exact boot_sound
  · intro state label after _ sound taken
    cases label with
    | parent success => exact parent_sound sound taken
    | child success => exact child_sound sound taken

/-! ## The end of a run -/

theorem accepted_sublist (events : List Event) :
    (accepted events).Sublist (attempted events) ∧
      (accepted events = attempted events ↔ ∀ i, Event.send i false ∉ events) := by
  induction events with
  | nil => exact ⟨.slnil, by simp [accepted, attempted]⟩
  | cons event rest ih =>
      obtain ⟨part, whole⟩ := ih
      cases event with
      | send i success =>
          have tries : attempted (.send i success :: rest) = i :: attempted rest := rfl
          cases success with
          | true =>
              have takes : accepted (.send i true :: rest) = i :: accepted rest := rfl
              rw [takes, tries]
              refine ⟨part.cons_cons i, ?_⟩
              simp [whole]
          | false =>
              have takes : accepted (.send i false :: rest) = accepted rest := rfl
              rw [takes, tries]
              refine ⟨part.cons i, iff_of_false ?_ ?_⟩
              · intro same
                have lengths := congrArg List.length same
                have shorter := part.length_le
                rw [List.length_cons] at lengths
                omega
              · intro none
                exact none i List.mem_cons_self
      | got text => exact ⟨part, whole.trans (by simp)⟩
      | receiveFailed => exact ⟨part, whole.trans (by simp)⟩
      | waitFailed => exact ⟨part, whole.trans (by simp)⟩
      | unlinkFailed => exact ⟨part, whole.trans (by simp)⟩

def ParentPlace.steps : ParentPlace → Nat
  | .send i => mqMaxmsg - i + 3
  | .waitpid => 2
  | .unlink => 1
  | .returned => 0

def ChildPlace.steps : ChildPlace → Nat
  | .receive i => mqMaxmsg - i + 1
  | .exited _ => 0

def State.work (state : State) : Nat := state.parent.steps + state.child.steps

theorem step_lowers_work (state : State) (label : Label) (after : State)
    (reached : Reachable system state) (taken : system.step state label after) :
    after.work < state.work := by
  have sound := reachable_sound reached
  cases label with
  | parent success =>
      simp only [system, advance, parentStep] at taken
      split at taken
      case h_1 i place =>
        have less := sound.sending i place
        have lower : (ParentPlace.loop (i + 1)).steps < (ParentPlace.send i).steps := by
          unfold ParentPlace.loop
          split_ifs
          · simp only [ParentPlace.steps]
            omega
          · simp only [ParentPlace.steps]
            omega
        split_ifs at taken with works
        · obtain ⟨message, _, rest⟩ := Option.bind_eq_some_iff.mp taken
          obtain ⟨queue, _, same⟩ := Option.bind_eq_some_iff.mp rest
          cases same
          simp only [State.work, place]
          omega
        · cases taken
          simp only [State.work, place]
          omega
      case h_2 place =>
        split_ifs at taken
        · split at taken
          · cases taken
          · cases taken
            simp only [State.work, place, ParentPlace.steps]
            omega
        · cases taken
          simp only [State.work, place, ParentPlace.steps]
          omega
      case h_3 place =>
        split_ifs at taken
        all_goals
          cases taken
          simp only [State.work, place, ParentPlace.steps]
          omega
      case h_4 place => cases taken
  | child success =>
      simp only [system, advance, childStep] at taken
      split at taken
      case h_1 i place =>
        obtain ⟨less, _⟩ := sound.receiving i place
        have lower : (ChildPlace.loop (i + 1)).steps < (ChildPlace.receive i).steps := by
          unfold ChildPlace.loop
          split_ifs
          · simp only [ChildPlace.steps]
            omega
          · simp only [ChildPlace.steps]
            omega
        split_ifs at taken with works
        · obtain ⟨⟨message, queue⟩, _, rest⟩ := Option.bind_eq_some_iff.mp taken
          obtain ⟨text, _, same⟩ := Option.bind_eq_some_iff.mp rest
          cases same
          simp only [State.work, place]
          omega
        · cases taken
          simp only [State.work, place, ChildPlace.steps]
          omega
      case h_2 ended place => cases taken

/-- No call of either process can succeed. -/
def Stuck (state : State) : Prop := parentStep state true = none ∧ childStep state true = none

/-- The queue has room for all the messages, so that the parent never waits for the child
before the end. -/
theorem stuck_parent {state : State} (sound : Sound state) (stuck : Stuck state) :
    attempted state.events = List.range mqMaxmsg ∧
      (state.parent = .waitpid ∧ (∃ i, state.child = .receive i) ∨ state.parent = .returned) := by
  have never := stuck.1
  have attempts := sound.attempts
  cases place : state.parent with
  | send i =>
      rw [place] at attempts
      obtain ⟨earlier, waiting, accepts, _, bodies⟩ := sound.flow
      obtain ⟨message, composed, _⟩ := compose_spec (sound.sending i place)
      have queued : state.queue.messages.length ≤ i := by
        have shorter := (accepted_sublist state.events).1.length_le
        rw [accepts, attempts, List.length_append] at shorter
        have lengths := congrArg List.length bodies
        rw [Queue.bodies, List.length_map, List.length_map] at lengths
        rw [lengths]
        exact (Nat.le_add_left _ _).trans (shorter.trans (List.length_range ..).le)
      have less := sound.sending i place
      have room : state.queue.messages.length < mqMaxmsg := Nat.lt_of_le_of_lt queued less
      obtain ⟨after, sent⟩ := Queue.send_of_room message room
      simp [parentStep, place, composed, sent] at never
  | waitpid =>
      rw [place] at attempts
      refine ⟨attempts, Or.inl ⟨rfl, ?_⟩⟩
      cases child : state.child with
      | receive i => exact ⟨i, rfl⟩
      | exited success => simp [parentStep, place, child] at never
  | unlink => simp [parentStep, place] at never
  | returned =>
      rw [place] at attempts
      exact ⟨attempts, Or.inr rfl⟩

/-- The parent has come through unless it waits for a child that waits for a message. -/
theorem stuck_waits {state : State} (sound : Sound state) (stuck : Stuck state) {i : Nat}
    (receives : state.child = .receive i) :
    state.parent = if Event.waitFailed ∈ state.events then .returned else .waitpid := by
  split_ifs with failed
  · rcases (stuck_parent sound stuck).2 with ⟨parent, _⟩ | parent
    · have ended := sound.waited failed
      rw [parent] at ended
      simp at ended
    · exact parent
  · rcases (stuck_parent sound stuck).2 with ⟨parent, _⟩ | parent
    · exact parent
    · obtain ⟨_, exited⟩ := (sound.reaped (Or.inr parent)).resolve_left failed
      rw [receives] at exited
      cases exited

theorem stuck_returned {state : State} (sound : Sound state) (stuck : Stuck state) {success : Bool}
    (exited : state.child = .exited success) : state.parent = .returned := by
  refine (stuck_parent sound stuck).2.resolve_left ?_
  rintro ⟨_, i, receives⟩
  rw [exited] at receives
  cases receives

/-- Whichever calls fail, every run ends, and the child prints the messages that were sent,
unaltered and in their order; the name of the queue is left exactly until the parent has
returned from an `mq_unlink` that succeeds. If no message is lost the child prints all of
them and both processes end. One failed `mq_send` is enough to leave the child waiting for a
message, and the parent for the child unless its `waitpid` fails; only a failed `mq_receive`
ends such a child. -/
theorem messages_printed_in_order :
    (∀ states, ¬ InfiniteRun system states) ∧
    ∀ state, Reachable system state →
      printed state.events <+: (accepted state.events).map messageText ∧
      (state.linked = false ↔ state.parent = .returned ∧ Event.unlinkFailed ∉ state.events) ∧
      (Stuck state →
        (Event.receiveFailed ∈ state.events →
          state.parent = .returned ∧ state.child = .exited false) ∧
        (Event.receiveFailed ∉ state.events → (∀ i, Event.send i false ∉ state.events) →
          state.parent = .returned ∧ state.child = .exited true ∧
            printed state.events = (List.range mqMaxmsg).map messageText) ∧
        (Event.receiveFailed ∉ state.events → ∀ i, Event.send i false ∈ state.events →
          (state.parent = if Event.waitFailed ∈ state.events then .returned else .waitpid) ∧
            (∃ j, state.child = .receive j) ∧
            printed state.events = (accepted state.events).map messageText)) := by
  refine ⟨no_infinite_run State.work step_lowers_work, fun state reached => ?_⟩
  have sound := reachable_sound reached
  obtain ⟨earlier, waiting, accepts, prints, bodies⟩ := sound.flow
  refine ⟨?_, sound.linked, fun stuck => ?_⟩
  · rw [accepts, prints, List.map_append]
    exact List.prefix_append _ _
  obtain ⟨attempts, _⟩ := stuck_parent sound stuck
  obtain ⟨part, whole⟩ := accepted_sublist state.events
  have sizes : (accepted state.events).length = (printed state.events).length + waiting.length := by
    rw [accepts, prints, List.length_append, List.length_map]
  have bound := part.length_le
  rw [attempts, List.length_range] at bound
  -- a child that waits has printed everything that was sent
  have drained : ∀ i, state.child = .receive i → waiting = [] := by
    intro i receives
    have never := stuck.2
    by_contra more
    have nonempty : state.queue.messages ≠ [] := by
      rw [ne_eq, ← Queue.bodies_eq_nil, bodies, List.map_eq_nil_iff]
      exact more
    obtain ⟨message, queue, received⟩ := Queue.receive_of_nonempty nonempty
    have front := Queue.receive_bodies received
    rw [bodies] at front
    obtain ⟨first, others, _, body, _⟩ := List.map_eq_cons_iff.mp front
    have shows := shown_spec body.symm (message_text_nul_free first)
    simp [childStep, receives, received, shows] at never
  refine ⟨fun failed => ?_, fun unfailed none => ?_, fun unfailed i fails => ?_⟩
  · have child := sound.failed.mp failed
    exact ⟨stuck_returned sound stuck child, child⟩
  · have all := whole.mpr none
    cases child : state.child with
    | receive i =>
        obtain ⟨less, count⟩ := sound.receiving i child
        rw [all, attempts, drained i child, List.length_range, List.length_nil] at sizes
        omega
    | exited success =>
        cases success with
        | false => exact absurd (sound.failed.mpr child) unfailed
        | true =>
            have count := sound.complete child
            have nothing : waiting = [] := List.eq_nil_of_length_eq_zero (by omega)
            refine ⟨stuck_returned sound stuck child, rfl, ?_⟩
            rw [nothing, List.append_nil] at accepts
            rw [prints, ← accepts, all, attempts]
  · have fewer : accepted state.events ≠ attempted state.events := fun same =>
      whole.mp same i fails
    have shorter : (accepted state.events).length < mqMaxmsg := by
      have lengths := part.eq_of_length
      rw [attempts, List.length_range] at lengths
      rw [attempts] at fewer
      exact lt_of_le_of_ne bound fun same => fewer (lengths same)
    cases child : state.child with
    | receive j =>
        refine ⟨stuck_waits sound stuck child, ⟨j, rfl⟩, ?_⟩
        rw [drained j child, List.append_nil] at accepts
        rw [prints, accepts]
    | exited success =>
        cases success with
        | false => exact absurd (sound.failed.mpr child) unfailed
        | true =>
            have count := sound.complete child
            omega

end LinuxSystemPrograms.MqParentChild
