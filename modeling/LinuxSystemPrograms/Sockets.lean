import Mathlib.Data.List.Basic
import Mathlib.Logic.Function.Basic

/-!
# Stream sockets as the kernel keeps them

A process names its connections by descriptors, and the numbers are reused. The kernel
model keeps, beside the descriptor table, one log for each connection ever accepted;
connections are numbered in the order of their `accept`. A program is run against it by
executing the list of system calls it made, so that "the bytes received on this
connection" is read off the log and not off the program's own variables.

`Note` is what a model adds to the log besides system calls, for example the value a
handler returned.
-/

namespace LinuxSystemPrograms.Sockets

set_option autoImplicit false

abbrev Byte := UInt8

def newline : Byte := 10

/-- A C `int`; `-1` is the value of a slot without a descriptor. -/
abbrev Fd := Int

theorem fd_ne_of_valid {fd : Fd} (valid : 0 ≤ fd) : fd ≠ -1 := by
  rintro rfl
  exact absurd valid (by decide)

/-- `EWOULDBLOCK` and `EAGAIN` are one number on Linux. -/
inductive Errno where
  | eagain
  | eintr
  | einprogress
  | emsgsize
  | eproto
  | econnreset
  | other (code : Nat)
  deriving DecidableEq, Repr

/-- `.ok []` is the return value 0: the peer has shut down and everything was read. -/
abbrev RecvResult := Except Errno (List Byte)

abbrev SendResult := Except Errno Nat

/-- `recv` copies at most `length` of the bytes that are ready. -/
def recv (length : Nat) (ready : RecvResult) : RecvResult := ready.map (List.take length)

/-- `send` accepts at most the `length` bytes it is offered. -/
def send (length : Nat) (room : SendResult) : SendResult := room.map (min · length)

theorem recv_ok_length {length : Nat} {ready : RecvResult} {chunk : List Byte}
    (result : recv length ready = .ok chunk) : chunk.length ≤ length := by
  cases ready with
  | error reason => cases result
  | ok bytes =>
      cases result
      exact List.length_take_le length bytes

theorem send_ok_le {length : Nat} {room : SendResult} {count : Nat}
    (result : send length room = .ok count) : count ≤ length := by
  cases room with
  | error reason => cases result
  | ok free =>
      cases result
      exact Nat.min_le_right _ _

inductive ConnEvent (Note : Type*) where
  | recv (result : RecvResult)
  | send (offered : List Byte) (result : SendResult)
  | close
  | note (note : Note)
  deriving DecidableEq

variable {Note : Type*}

namespace ConnEvent

def receivedBytes : ConnEvent Note → List Byte
  | .recv (.ok chunk) => chunk
  | _ => []

def sentBytes : ConnEvent Note → List Byte
  | .send offered (.ok count) => offered.take count
  | _ => []

end ConnEvent

def received (log : List (ConnEvent Note)) : List Byte := log.flatMap ConnEvent.receivedBytes

def sent (log : List (ConnEvent Note)) : List Byte := log.flatMap ConnEvent.sentBytes

@[simp] theorem received_nil : received ([] : List (ConnEvent Note)) = [] := rfl

@[simp] theorem sent_nil : sent ([] : List (ConnEvent Note)) = [] := rfl

@[simp] theorem received_append (earlier later : List (ConnEvent Note)) :
    received (earlier ++ later) = received earlier ++ received later :=
  List.flatMap_append

@[simp] theorem sent_append (earlier later : List (ConnEvent Note)) :
    sent (earlier ++ later) = sent earlier ++ sent later :=
  List.flatMap_append

@[simp] theorem received_cons (event : ConnEvent Note) (later : List (ConnEvent Note)) :
    received (event :: later) = event.receivedBytes ++ received later :=
  List.flatMap_cons

@[simp] theorem sent_cons (event : ConnEvent Note) (later : List (ConnEvent Note)) :
    sent (event :: later) = event.sentBytes ++ sent later :=
  List.flatMap_cons

def CloseLast (events : List (ConnEvent Note)) : Prop :=
  ∃ part, ConnEvent.close ∉ part ∧ (events = part ∨ events = part ++ [.close])

theorem close_last_nil : CloseLast ([] : List (ConnEvent Note)) :=
  ⟨[], List.not_mem_nil, Or.inl rfl⟩

theorem close_last_append {earlier later : List (ConnEvent Note)}
    (noClose : ConnEvent.close ∉ earlier) (closeLast : CloseLast later) :
    CloseLast (earlier ++ later) := by
  obtain ⟨part, noCloseLater, same⟩ := closeLast
  refine ⟨earlier ++ part, by simp [noClose, noCloseLater], ?_⟩
  apply same.imp
  · exact congrArg (earlier ++ ·)
  · intro same
    rw [same, List.append_assoc]

theorem close_last_tail {event : ConnEvent Note} {later : List (ConnEvent Note)}
    (closeLast : CloseLast (event :: later)) :
    CloseLast later ∧ (event = .close → later = []) := by
  obtain ⟨part, noClose, same⟩ := closeLast
  cases part with
  | nil =>
      rcases same with same | same
      · cases same
      · cases same
        exact ⟨close_last_nil, fun _ => rfl⟩
  | cons first rest =>
      rw [List.mem_cons, not_or] at noClose
      have notClose : event = .close → later = [] := by
        rintro rfl
        rcases same with same | same
        · cases same
          exact absurd rfl noClose.1
        · cases same
          exact absurd rfl noClose.1
      refine ⟨⟨rest, noClose.2, ?_⟩, notClose⟩
      rcases same with same | same
      · cases same
        exact Or.inl rfl
      · cases same
        exact Or.inr rfl

/-- At every moment of the connection's life the peer has been sent a prefix of its own
input. -/
def EchoesPrefix (log : List (ConnEvent Note)) : Prop :=
  ∀ earlier, earlier <+: log → sent earlier <+: received earlier

theorem echoes_prefix_nil : EchoesPrefix ([] : List (ConnEvent Note)) := by
  intro earlier isPrefix
  rw [List.prefix_nil.mp isPrefix]
  exact List.prefix_rfl

theorem echoes_prefix_concat {log : List (ConnEvent Note)} {event : ConnEvent Note}
    (before : EchoesPrefix log)
    (now : sent (log ++ [event]) <+: received (log ++ [event])) :
    EchoesPrefix (log ++ [event]) := by
  intro earlier isPrefix
  rcases List.prefix_concat_iff.mp isPrefix with rfl | old
  · exact now
  · exact before earlier old

/-- Only `send` can break the prefix law. -/
theorem echoes_prefix_of_silent {log : List (ConnEvent Note)} (before : EchoesPrefix log)
    (event : ConnEvent Note) (silent : event.sentBytes = []) :
    EchoesPrefix (log ++ [event]) := by
  apply echoes_prefix_concat before
  have whole := before log List.prefix_rfl
  simp only [sent_append, received_append, sent_cons, sent_nil, silent, List.append_nil]
  exact whole.trans (List.prefix_append _ _)

inductive File where
  | closed
  | listener
  | conn (id : Nat)
  deriving DecidableEq, Repr

namespace File

def connId : File → Option Nat
  | .conn id => some id
  | _ => none

end File

structure Kernel (Note : Type*) where
  file : Fd → File
  accepted : Nat
  log : Nat → List (ConnEvent Note)

/-- A system call of the program that concerns a socket. -/
inductive Action (Note : Type*) where
  | accept (fd : Fd)
  | io (fd : Fd) (event : ConnEvent Note)

namespace Kernel

def boot (listener : Fd) : Kernel Note where
  file := Function.update (fun _ => .closed) listener .listener
  accepted := 0
  log := fun _ => []

def openConn (kernel : Kernel Note) (fd : Fd) : Kernel Note where
  file := Function.update kernel.file fd (.conn kernel.accepted)
  accepted := kernel.accepted + 1
  log := kernel.log

def record (kernel : Kernel Note) (id : Nat) (events : List (ConnEvent Note)) : Kernel Note :=
  { kernel with log := Function.update kernel.log id (kernel.log id ++ events) }

def release (kernel : Kernel Note) (fd : Fd) : Kernel Note :=
  { kernel with file := Function.update kernel.file fd .closed }

/-- A call on a descriptor that names no connection reaches no log. -/
def step (kernel : Kernel Note) : Action Note → Kernel Note
  | .accept fd => kernel.openConn fd
  | .io fd event =>
      match kernel.file fd with
      | .conn id =>
          match event with
          | .close => (kernel.record id [.close]).release fd
          | event => kernel.record id [event]
      | _ => kernel

def exec (kernel : Kernel Note) (actions : List (Action Note)) : Kernel Note :=
  actions.foldl step kernel

/-- `accept` returns a descriptor that is not open. -/
def Admits (kernel : Kernel Note) : List (Action Note) → Prop
  | [] => True
  | .accept fd :: rest => 0 ≤ fd ∧ kernel.file fd = .closed ∧ (kernel.openConn fd).Admits rest
  | .io fd event :: rest => (kernel.step (.io fd event)).Admits rest

instance decidableAdmits : (actions : List (Action Note)) → (kernel : Kernel Note) →
    Decidable (kernel.Admits actions)
  | [], _ => isTrue trivial
  | .accept fd :: rest, kernel =>
      have := decidableAdmits rest (kernel.openConn fd)
      inferInstanceAs (Decidable (_ ∧ _ ∧ _))
  | .io fd event :: rest, kernel => decidableAdmits rest (kernel.step (.io fd event))

@[simp] theorem exec_nil (kernel : Kernel Note) : kernel.exec [] = kernel := rfl

@[simp] theorem exec_cons (kernel : Kernel Note) (action : Action Note)
    (rest : List (Action Note)) :
    kernel.exec (action :: rest) = (kernel.step action).exec rest := rfl

@[simp] theorem exec_append (kernel : Kernel Note) (first second : List (Action Note)) :
    kernel.exec (first ++ second) = (kernel.exec first).exec second :=
  List.foldl_append

theorem admits_append {kernel : Kernel Note} {first second : List (Action Note)} :
    kernel.Admits (first ++ second) ↔
      kernel.Admits first ∧ (kernel.exec first).Admits second := by
  induction first generalizing kernel with
  | nil => simp [Admits]
  | cons action rest ih =>
      cases action with
      | accept fd =>
          simp only [List.cons_append, Admits, exec_cons, step, ih]
          tauto
      | io fd event => simp only [List.cons_append, Admits, exec_cons, ih]

@[simp] theorem boot_file_listener (listener : Fd) :
    (boot listener : Kernel Note).file listener = .listener := by
  simp [boot]

/-- `Meets` holds of every call at the moment it is made. -/
def Along (kernel : Kernel Note) (Meets : Kernel Note → Action Note → Prop) :
    List (Action Note) → Prop
  | [] => True
  | action :: rest => Meets kernel action ∧ (kernel.step action).Along Meets rest

theorem along_append {kernel : Kernel Note} {Meets : Kernel Note → Action Note → Prop}
    {first second : List (Action Note)} :
    kernel.Along Meets (first ++ second) ↔
      kernel.Along Meets first ∧ (kernel.exec first).Along Meets second := by
  induction first generalizing kernel with
  | nil => simp [Along]
  | cons action rest ih =>
      simp only [List.cons_append, Along, exec_cons, ih]
      exact and_assoc.symm

theorem along_mono {Meets Weaker : Kernel Note → Action Note → Prop}
    (weaker : ∀ kernel action, Meets kernel action → Weaker kernel action)
    {kernel : Kernel Note} {actions : List (Action Note)} (along : kernel.Along Meets actions) :
    kernel.Along Weaker actions := by
  induction actions generalizing kernel with
  | nil => trivial
  | cons action rest ih => exact ⟨weaker kernel action along.1, ih along.2⟩

@[simp] theorem record_file (kernel : Kernel Note) (id : Nat) (events : List (ConnEvent Note)) :
    (kernel.record id events).file = kernel.file := rfl

@[simp] theorem record_accepted (kernel : Kernel Note) (id : Nat)
    (events : List (ConnEvent Note)) :
    (kernel.record id events).accepted = kernel.accepted := rfl

@[simp] theorem record_log_same (kernel : Kernel Note) (id : Nat)
    (events : List (ConnEvent Note)) :
    (kernel.record id events).log id = kernel.log id ++ events :=
  Function.update_self _ _ _

theorem record_log_other (kernel : Kernel Note) {id other : Nat}
    (events : List (ConnEvent Note)) (different : other ≠ id) :
    (kernel.record id events).log other = kernel.log other :=
  Function.update_of_ne different _ _

@[simp] theorem release_log (kernel : Kernel Note) (fd : Fd) :
    (kernel.release fd).log = kernel.log := rfl

@[simp] theorem release_accepted (kernel : Kernel Note) (fd : Fd) :
    (kernel.release fd).accepted = kernel.accepted := rfl

@[simp] theorem release_file_same (kernel : Kernel Note) (fd : Fd) :
    (kernel.release fd).file fd = .closed :=
  Function.update_self _ _ _

theorem release_file_other (kernel : Kernel Note) {fd other : Fd} (different : other ≠ fd) :
    (kernel.release fd).file other = kernel.file other :=
  Function.update_of_ne different _ _

@[simp] theorem open_file_same (kernel : Kernel Note) (fd : Fd) :
    (kernel.openConn fd).file fd = .conn kernel.accepted :=
  Function.update_self _ _ _

theorem open_file_other (kernel : Kernel Note) {fd other : Fd} (different : other ≠ fd) :
    (kernel.openConn fd).file other = kernel.file other :=
  Function.update_of_ne different _ _

@[simp] theorem open_log (kernel : Kernel Note) (fd : Fd) :
    (kernel.openConn fd).log = kernel.log := rfl

@[simp] theorem open_accepted (kernel : Kernel Note) (fd : Fd) :
    (kernel.openConn fd).accepted = kernel.accepted + 1 := rfl

/-- The calls one handler makes on an open connection, none of them `close`. -/
theorem exec_io_open {kernel : Kernel Note} {fd : Fd} {id : Nat}
    (owner : kernel.file fd = .conn id) (events : List (ConnEvent Note))
    (noClose : ConnEvent.close ∉ events) :
    kernel.exec (events.map (.io fd)) = kernel.record id events := by
  induction events generalizing kernel with
  | nil => simp [record]
  | cons event rest ih =>
      simp only [List.mem_cons, not_or] at noClose
      have first : kernel.step (.io fd event) = kernel.record id [event] := by
        cases event <;> simp [step, owner] at noClose ⊢
      rw [List.map_cons, exec_cons, first, ih (by simpa using owner) noClose.2]
      simp [record]

/-- The same calls followed by `close`. -/
theorem exec_io_close {kernel : Kernel Note} {fd : Fd} {id : Nat}
    (owner : kernel.file fd = .conn id) (events : List (ConnEvent Note))
    (noClose : ConnEvent.close ∉ events) :
    kernel.exec ((events ++ [ConnEvent.close]).map (.io fd)) =
      (kernel.record id (events ++ [ConnEvent.close])).release fd := by
  rw [List.map_append, exec_append, exec_io_open owner events noClose]
  simp [step, owner, record]

theorem step_io_file_other (kernel : Kernel Note) {fd other : Fd} (event : ConnEvent Note)
    (different : other ≠ fd) : (kernel.step (.io fd event)).file other = kernel.file other := by
  cases owner : kernel.file fd with
  | conn id => cases event <;> simp [step, owner, release_file_other _ different]
  | closed => simp [step, owner]
  | listener => simp [step, owner]

theorem step_io_listener {kernel : Kernel Note} {fd : Fd} (listening : kernel.file fd = .listener)
    (other : Fd) (event : ConnEvent Note) :
    (kernel.step (.io other event)).file fd = .listener := by
  by_cases same : fd = other
  · subst same
    simp [step, listening]
  · rw [step_io_file_other kernel event same, listening]

/-- No admitted call touches a listening socket. -/
theorem exec_listener {kernel : Kernel Note} {fd : Fd} (listening : kernel.file fd = .listener)
    {actions : List (Action Note)} (admitted : kernel.Admits actions) :
    (kernel.exec actions).file fd = .listener := by
  induction actions generalizing kernel with
  | nil => exact listening
  | cons action rest ih =>
      cases action with
      | accept other =>
          have different : fd ≠ other := by
            intro same
            have unused := admitted.2.1
            rw [← same, listening] at unused
            exact File.noConfusion unused
          apply ih _ admitted.2.2
          rw [open_file_other kernel different, listening]
      | io other event => exact ih (step_io_listener listening other event) admitted

theorem step_io_file_open (kernel : Kernel Note) (fd : Fd) {event : ConnEvent Note}
    (notClose : event ≠ .close) : (kernel.step (.io fd event)).file = kernel.file := by
  cases owner : kernel.file fd with
  | conn id => cases event <;> simp [step, owner] at notClose ⊢
  | closed => simp [step, owner]
  | listener => simp [step, owner]

/-- A call reaches the log of the connection its descriptor names and no other. -/
theorem step_io_log_other {kernel : Kernel Note} {fd : Fd} {id : Nat}
    (notNamed : kernel.file fd ≠ .conn id) (event : ConnEvent Note) :
    (kernel.step (.io fd event)).log id = kernel.log id := by
  cases owner : kernel.file fd with
  | conn other =>
      have different : id ≠ other := by
        rintro rfl
        exact notNamed owner
      cases event <;> simp [step, owner, record_log_other _ _ different]
  | closed => simp [step, owner]
  | listener => simp [step, owner]

theorem named_of_step_io {kernel : Kernel Note} {fd other : Fd} {event : ConnEvent Note}
    {id : Nat} (named : (kernel.step (.io fd event)).file other = .conn id) :
    kernel.file other = .conn id := by
  by_cases same : other = fd
  · subst same
    by_cases isClose : event = .close
    · subst isClose
      cases owner : kernel.file other with
      | conn found => simp [step, owner] at named
      | closed => simp [step, owner] at named
      | listener => simp [step, owner] at named
    · rwa [step_io_file_open kernel other isClose] at named
  · rwa [step_io_file_other kernel event same] at named

theorem step_close {kernel : Kernel Note} {fd : Fd} {id : Nat}
    (owner : kernel.file fd = .conn id) :
    kernel.step (.io fd .close) = (kernel.record id [.close]).release fd := by
  simp [step, owner]

theorem step_open {kernel : Kernel Note} {fd : Fd} {id : Nat}
    (owner : kernel.file fd = .conn id) {event : ConnEvent Note} (notClose : event ≠ .close) :
    kernel.step (.io fd event) = kernel.record id [event] := by
  cases event <;> simp [step, owner] at notClose ⊢

/-- Calls that are not `close` leave every descriptor as it is. -/
theorem exec_io_file (kernel : Kernel Note) (fd : Fd) {events : List (ConnEvent Note)}
    (noClose : ConnEvent.close ∉ events) :
    (kernel.exec (events.map (.io fd))).file = kernel.file := by
  induction events generalizing kernel with
  | nil => rfl
  | cons event rest ih =>
      rw [List.mem_cons, not_or] at noClose
      rw [List.map_cons, exec_cons, ih _ noClose.2,
        step_io_file_open kernel fd (Ne.symm noClose.1)]

theorem exec_io_log_other {kernel : Kernel Note} {fd : Fd} {id : Nat}
    (notNamed : kernel.file fd ≠ .conn id) (events : List (ConnEvent Note)) :
    (kernel.exec (events.map (.io fd))).log id = kernel.log id := by
  induction events generalizing kernel with
  | nil => rfl
  | cons event rest ih =>
      rw [List.map_cons, exec_cons, ih fun named => notNamed (named_of_step_io named),
        step_io_log_other notNamed]

/-- Calls that are not `close` are logged for the connection that the descriptor names. -/
theorem exec_io_log (kernel : Kernel Note) (fd : Fd) {events : List (ConnEvent Note)}
    (noClose : ConnEvent.close ∉ events) (id : Nat) :
    (kernel.exec (events.map (.io fd))).log id =
      kernel.log id ++ if kernel.file fd = .conn id then events else [] := by
  split_ifs with owner
  · rw [exec_io_open owner events noClose, record_log_same]
  · rw [exec_io_log_other owner, List.append_nil]

theorem step_close_log (kernel : Kernel Note) (fd : Fd) (id : Nat) :
    (kernel.step (.io fd .close)).log id =
      kernel.log id ++ if kernel.file fd = .conn id then [.close] else [] := by
  split_ifs with owner
  · rw [step_close owner, release_log, record_log_same]
  · rw [step_io_log_other owner, List.append_nil]

/-- `close` changes what its own descriptor names, if that is a connection. -/
theorem step_close_file (kernel : Kernel Note) (fd other : Fd) :
    (kernel.step (.io fd .close)).file other = kernel.file other ∨
      other = fd ∧ (kernel.step (.io fd .close)).file other = .closed := by
  by_cases same : other = fd
  · subst same
    cases owner : kernel.file other with
    | conn id =>
        rw [step_close owner, release_file_same]
        exact Or.inr ⟨rfl, rfl⟩
    | closed => simp [step, owner]
    | listener => simp [step, owner]
  · exact Or.inl (step_io_file_other kernel .close same)

/-- After `close` the descriptor names no connection. -/
theorem named_of_step_close {kernel : Kernel Note} {fd other : Fd} {id : Nat}
    (named : (kernel.step (.io fd .close)).file other = .conn id) :
    other ≠ fd ∧ kernel.file other = .conn id := by
  refine ⟨?_, named_of_step_io named⟩
  rintro rfl
  have before := named_of_step_io named
  rw [step_close before, release_file_same] at named
  cases named

theorem exec_io_file_other (kernel : Kernel Note) {fd other : Fd}
    (events : List (ConnEvent Note)) (different : other ≠ fd) :
    (kernel.exec (events.map (.io fd))).file other = kernel.file other := by
  induction events generalizing kernel with
  | nil => rfl
  | cons event rest ih =>
      rw [List.map_cons, exec_cons, ih, step_io_file_other kernel event different]

/-- The calls on one descriptor find it as the first of them does, as long as only the
last one is `close`. -/
theorem along_io {kernel : Kernel Note} {fd : Fd} {events : List (ConnEvent Note)}
    (closeLast : CloseLast events) :
    kernel.Along (fun now action => ∃ event ∈ events, action = .io fd event ∧
      now.file fd = kernel.file fd) (events.map (.io fd)) := by
  have body : ∀ (part : List (ConnEvent Note)) (now : Kernel Note), ConnEvent.close ∉ part →
      part ⊆ events → now.file fd = kernel.file fd →
      now.Along (fun now action => ∃ event ∈ events, action = .io fd event ∧
        now.file fd = kernel.file fd) (part.map (.io fd)) ∧
        (now.exec (part.map (.io fd))).file fd = kernel.file fd := by
    intro part
    induction part with
    | nil => exact fun now _ _ same => ⟨trivial, same⟩
    | cons event rest ih =>
        intro now noClose inside same
        rw [List.mem_cons, not_or] at noClose
        rw [List.cons_subset] at inside
        have after : (now.step (.io fd event)).file fd = kernel.file fd := by
          rw [step_io_file_open now fd (Ne.symm noClose.1), same]
        have later := ih (now.step (.io fd event)) noClose.2 inside.2 after
        exact ⟨⟨⟨event, inside.1, rfl, same⟩, later.1⟩, later.2⟩
  obtain ⟨part, noClose, rfl | rfl⟩ := closeLast
  · exact (body _ kernel noClose (List.Subset.refl _) rfl).1
  · have first := body part kernel noClose (List.subset_append_left _ _) rfl
    rw [List.map_append, along_append]
    exact ⟨first.1, ⟨.close, by simp, rfl, first.2⟩, trivial⟩

/-- What every sequence of admitted calls keeps: a connection has at most one
descriptor, the ones not accepted yet have an empty log, and a connection is closed
exactly when no descriptor names it any more. -/
structure WellFormed (kernel : Kernel Note) : Prop where
  fresh : ∀ id, kernel.accepted ≤ id → kernel.log id = []
  owner : ∀ fd id, kernel.file fd = .conn id → 0 ≤ fd ∧ id < kernel.accepted
  single : ∀ fd other id, kernel.file fd = .conn id → kernel.file other = .conn id → fd = other
  shut : ∀ id, id < kernel.accepted →
    (ConnEvent.close ∈ kernel.log id ↔ ∀ fd, kernel.file fd ≠ .conn id)

theorem boot_well_formed (listener : Fd) : (boot listener : Kernel Note).WellFormed where
  fresh _ _ := rfl
  owner fd id owner := by
    by_cases same : fd = listener <;> simp [boot, same] at owner
  single fd other id owner := by
    by_cases same : fd = listener <;> simp [boot, same] at owner
  shut id bound := absurd bound (Nat.not_lt_zero id)

theorem open_well_formed {kernel : Kernel Note} (formed : kernel.WellFormed) {fd : Fd}
    (valid : 0 ≤ fd) (unused : kernel.file fd = .closed) : (kernel.openConn fd).WellFormed where
  fresh id bound := formed.fresh id (by simp only [open_accepted] at bound; omega)
  owner other id owner := by
    by_cases same : other = fd
    · subst same
      rw [open_file_same, File.conn.injEq] at owner
      exact ⟨valid, by simp [← owner]⟩
    · rw [open_file_other _ same] at owner
      have known := formed.owner other id owner
      exact ⟨known.1, by simp only [open_accepted]; omega⟩
  single left right id leftOwner rightOwner := by
    by_cases leftNew : left = fd <;> by_cases rightNew : right = fd
    · rw [leftNew, rightNew]
    · subst leftNew
      rw [open_file_same, File.conn.injEq] at leftOwner
      rw [open_file_other _ rightNew] at rightOwner
      exact absurd (formed.owner right id rightOwner).2 (by omega)
    · subst rightNew
      rw [open_file_same, File.conn.injEq] at rightOwner
      rw [open_file_other _ leftNew] at leftOwner
      exact absurd (formed.owner left id leftOwner).2 (by omega)
    · rw [open_file_other _ leftNew] at leftOwner
      rw [open_file_other _ rightNew] at rightOwner
      exact formed.single left right id leftOwner rightOwner
  shut id bound := by
    rw [open_accepted] at bound
    by_cases newest : id = kernel.accepted
    · subst newest
      have empty := formed.fresh kernel.accepted (Nat.le_refl _)
      simp only [open_log, empty, List.not_mem_nil, false_iff, not_forall, not_not]
      exact ⟨fd, open_file_same kernel fd⟩
    · rw [open_log, formed.shut id (by omega)]
      constructor
      · intro none other
        by_cases same : other = fd
        · subst same
          simp only [open_file_same, ne_eq, File.conn.injEq]
          omega
        · rw [open_file_other _ same]
          exact none other
      · intro none other
        by_cases same : other = fd
        · subst same
          simp [unused]
        · rw [← open_file_other kernel same]
          exact none other

theorem record_well_formed {kernel : Kernel Note} (formed : kernel.WellFormed) {fd : Fd}
    {id : Nat} (owner : kernel.file fd = .conn id) {events : List (ConnEvent Note)}
    (noClose : ConnEvent.close ∉ events) : (kernel.record id events).WellFormed where
  fresh other bound := by
    have bounded := (formed.owner fd id owner).2
    have notSame : other ≠ id := by simp only [record_accepted] at bound; omega
    rw [record_log_other _ _ notSame]
    exact formed.fresh other bound
  owner := formed.owner
  single := formed.single
  shut other bound := by
    by_cases same : other = id
    · subst same
      simp only [record_log_same, List.mem_append, noClose, or_false]
      exact formed.shut other bound
    · rw [record_log_other _ _ same]
      exact formed.shut other bound

theorem close_well_formed {kernel : Kernel Note} (formed : kernel.WellFormed) {fd : Fd}
    {id : Nat} (owner : kernel.file fd = .conn id) (events : List (ConnEvent Note)) :
    ((kernel.record id (events ++ [.close])).release fd).WellFormed where
  fresh other bound := by
    have bounded := (formed.owner fd id owner).2
    have notSame : other ≠ id := by
      simp only [release_accepted, record_accepted] at bound
      omega
    rw [release_log, record_log_other _ _ notSame]
    exact formed.fresh other bound
  owner other otherId otherOwner := by
    by_cases same : other = fd
    · simp [same] at otherOwner
    · rw [release_file_other _ same] at otherOwner
      exact formed.owner other otherId otherOwner
  single left right otherId leftOwner rightOwner := by
    by_cases leftSame : left = fd
    · simp [leftSame] at leftOwner
    · by_cases rightSame : right = fd
      · simp [rightSame] at rightOwner
      · rw [release_file_other _ leftSame] at leftOwner
        rw [release_file_other _ rightSame] at rightOwner
        exact formed.single left right otherId leftOwner rightOwner
  shut other bound := by
    by_cases same : other = id
    · subst same
      simp only [release_log, record_log_same, List.mem_append, List.mem_singleton, or_true,
        true_iff]
      intro candidate candidateOwner
      by_cases sameFd : candidate = fd
      · simp [sameFd] at candidateOwner
      · rw [release_file_other _ sameFd] at candidateOwner
        exact sameFd (formed.single candidate fd other candidateOwner owner)
    · rw [release_log, record_log_other _ _ same, formed.shut other bound]
      refine forall_congr' fun candidate => ?_
      by_cases sameFd : candidate = fd
      · subst sameFd
        simp [owner, Ne.symm same]
      · rw [release_file_other _ sameFd, record_file]

/-- A connection that is accepted and closed at once. -/
theorem refuse_eq (kernel : Kernel Note) (fd : Fd) :
    kernel.exec [.accept fd, .io fd .close] =
      ((kernel.openConn fd).record kernel.accepted ([] ++ [.close])).release fd := by
  simp [step]

theorem refuse_file {kernel : Kernel Note} {fd : Fd} (unused : kernel.file fd = .closed) :
    (kernel.exec [.accept fd, .io fd .close]).file = kernel.file := by
  funext other
  rw [refuse_eq]
  by_cases same : other = fd
  · rw [same, release_file_same, unused]
  · rw [release_file_other _ same, record_file, open_file_other _ same]

theorem refuse_log_other (kernel : Kernel Note) (fd : Fd) {id : Nat}
    (different : id ≠ kernel.accepted) :
    (kernel.exec [.accept fd, .io fd .close]).log id = kernel.log id := by
  rw [refuse_eq, release_log, record_log_other _ _ different, open_log]

theorem refuse_log_new {kernel : Kernel Note} (formed : kernel.WellFormed) (fd : Fd) :
    (kernel.exec [.accept fd, .io fd .close]).log kernel.accepted = [.close] := by
  rw [refuse_eq, release_log, record_log_same, open_log, formed.fresh _ (Nat.le_refl _)]
  rfl

theorem refuse_well_formed {kernel : Kernel Note} (formed : kernel.WellFormed) {fd : Fd}
    (valid : 0 ≤ fd) (unused : kernel.file fd = .closed) :
    (kernel.exec [.accept fd, .io fd .close]).WellFormed := by
  rw [refuse_eq]
  exact close_well_formed (open_well_formed formed valid unused) (open_file_same kernel fd) []

theorem step_io_well_formed {kernel : Kernel Note} (formed : kernel.WellFormed) (fd : Fd)
    (event : ConnEvent Note) : (kernel.step (.io fd event)).WellFormed := by
  cases owner : kernel.file fd with
  | conn id =>
      by_cases isClose : event = .close
      · subst isClose
        rw [step_close owner]
        exact close_well_formed formed owner []
      · rw [step_open owner isClose]
        apply record_well_formed formed owner
        rw [List.mem_singleton]
        exact Ne.symm isClose
  | closed => simpa [step, owner] using formed
  | listener => simpa [step, owner] using formed

/-- Calls on descriptors that are there keep the table in order, whatever they are. -/
theorem exec_io_well_formed {kernel : Kernel Note} (formed : kernel.WellFormed)
    {actions : List (Action Note)} (noAccept : ∀ fd, Action.accept fd ∉ actions) :
    (kernel.exec actions).WellFormed := by
  induction actions generalizing kernel with
  | nil => exact formed
  | cons action rest ih =>
      have restNoAccept : ∀ fd, Action.accept fd ∉ rest := fun fd member =>
        noAccept fd (List.mem_cons_of_mem _ member)
      cases action with
      | accept fd => exact absurd List.mem_cons_self (noAccept fd)
      | io fd event => exact ih (step_io_well_formed formed fd event) restNoAccept

end Kernel

end LinuxSystemPrograms.Sockets
