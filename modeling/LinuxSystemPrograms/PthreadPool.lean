import LinuxSystemPrograms.CharArray
import LinuxSystemPrograms.Framing
import LinuxSystemPrograms.RingBuffer
import LinuxSystemPrograms.Sockets
import LinuxSystemPrograms.Transition

/-!
# `server_pthread_pool.c`

A step is one section under the mutex, one system call of `handle_client`, or the wake-up
of a thread that blocks in `pthread_cond_wait`. A signal wakes one blocked thread, and
which one is up to the label; a thread that has woken tries for the mutex again at any
later step, with any number of others before it.
-/

namespace LinuxSystemPrograms.PthreadPool

open LinuxSystemPrograms.CharArray
open LinuxSystemPrograms.Framing
open LinuxSystemPrograms.RingBuffer
open LinuxSystemPrograms.Sockets
open LinuxSystemPrograms.Transition

set_option autoImplicit false

def maxTask : Nat := 100

def recvSize : Nat := 1023

def messageSize : Nat := 4096

/-- A line leaves `message` with what `send_all` has returned for it. -/
inductive Note where
  | removed (line : List Byte) (ret : Int)
  deriving DecidableEq, Repr

abbrev Event := ConnEvent Note

/-! ## `handle_client` -/

/-- The next system call of `handle_client`. -/
inductive Position where
  | receiving
  | sending (msgLen n : Nat)
  | closing
  deriving DecidableEq, Repr

structure Session where
  message : List.Vector Byte messageSize
  used : Nat
  position : Position
  usedBound : used ≤ messageSize

namespace Session

/-- `message` is not initialised. -/
def start (message : List.Vector Byte messageSize) : Session where
  message := message
  used := 0
  position := .receiving
  usedBound := Nat.zero_le _

/-- `message[0..used)`. -/
def part (session : Session) : List Byte :=
  slice session.message 0 session.used (by have := session.usedBound; omega)

def nextLine (session : Session) : Session :=
  { session with
    position :=
      match frameLength newline session.part with
      | none => .receiving
      | some msgLen => .sending msgLen 0 }

def append (session : Session) (chunk : List Byte)
    (fits : session.used + chunk.length ≤ messageSize) : Session :=
  { session with
    message := memcpy session.message session.used chunk fits
    used := session.used + chunk.length
    usedBound := fits }

theorem rest_fits (session : Session) (msgLen : Nat) :
    0 + (session.part.drop msgLen).length ≤ messageSize := by
  have bound := session.usedBound
  simp only [part, List.length_drop, slice_length]
  omega

theorem rest_bound (session : Session) (msgLen : Nat) : session.used - msgLen ≤ messageSize :=
  Nat.le_trans (Nat.sub_le _ _) session.usedBound

def removeLine (session : Session) (msgLen : Nat) : Session :=
  { session with
    message := memcpy session.message 0 (session.part.drop msgLen)
      (session.rest_fits msgLen)
    used := session.used - msgLen
    usedBound := session.rest_bound msgLen }

/-- From `recv` to the next system call. -/
def onRecv (session : Session) (result : RecvResult) : Session :=
  match result with
  | .ok chunk =>
      if chunk = [] then { session with position := .closing }
      else if fits : session.used + chunk.length ≤ messageSize then
        (session.append chunk fits).nextLine
      else { session with position := .closing }
  | .error .eagain => session.nextLine
  | .error _ => { session with position := .closing }

/-- From a `send` of `send_all` to the next system call; its return value is not used. A `send`
on a connection that the peer has reset is assumed to return with an error: nothing in the
source asks the system not to raise `SIGPIPE`, which would end the process. -/
def onSend (session : Session) (msgLen n : Nat) (result : SendResult) : Session × List Event :=
  let line := session.part.take msgLen
  match result with
  | .ok sent =>
      if n + sent < msgLen then ({ session with position := .sending msgLen (n + sent) }, [])
      else
        ((session.removeLine msgLen).nextLine, [.note (.removed line (Int.ofNat (n + sent)))])
  | .error _ => ((session.removeLine msgLen).nextLine, [.note (.removed line (-1))])

/-- One system call and the code up to the next; `none` when the function has returned. -/
def step (session : Session) (ready : RecvResult) (room : SendResult) :
    Option Session × List Event :=
  match session.position with
  | .receiving =>
      (some (session.onRecv (recv recvSize ready)), [.recv (recv recvSize ready)])
  | .sending msgLen n =>
      let offered := (session.part.take msgLen).drop n
      let result := send offered.length room
      let (after, notes) := session.onSend msgLen n result
      (some after, .send offered result :: notes)
  | .closing => (none, [.close])

end Session

/-! ## The queue and the threads -/

/-- `Task` has the field `client_fd` only. -/
abbrev Queue := Ring Fd maxTask

/-- Where a worker is; `idle` is before `pthread_mutex_lock`, and `woken` in
`pthread_cond_wait` when it is no longer blocked and has yet to retake the mutex. -/
inductive WorkerState where
  | idle
  | waiting
  | woken
  | serving (clientFd : Fd) (session : Session)

inductive AcceptorState where
  | accepting
  | holding (clientFd : Fd)
  | waiting (clientFd : Fd)
  | woken (clientFd : Fd)
  deriving DecidableEq, Repr

/-- `handed` records what the workers take from the queue, in this order. -/
structure Pool (threads : Nat) where
  queue : Queue
  worker : Fin threads → WorkerState
  acceptor : AcceptorState
  kernel : Kernel Note
  handed : List File

/-- `wakeWorker` and `wakeAcceptor` are the spurious wake-ups. -/
inductive Label (threads : Nat) where
  | accept (result : Except Errno Fd)
  | enqueue (signalled : Option (Fin threads))
  | dequeue (index : Fin threads) (message : List.Vector Byte messageSize)
  | handle (index : Fin threads) (ready : RecvResult) (room : SendResult)
  | wakeWorker (index : Fin threads)
  | wakeAcceptor

/-- `queue_init`; the cells are not initialised. -/
def queueInit (cells : Fin maxTask → Fd) : Queue where
  cells := cells
  front := ⟨0, by decide⟩
  rear := ⟨0, by decide⟩
  count := 0

namespace AcceptorState

def wake : AcceptorState → AcceptorState
  | .waiting clientFd => .woken clientFd
  | state => state

/-- The descriptor that `welcome_client` has accepted and not yet queued. -/
def held : AcceptorState → Option Fd
  | .accepting => none
  | .holding clientFd => some clientFd
  | .waiting clientFd => some clientFd
  | .woken clientFd => some clientFd

end AcceptorState

namespace WorkerState

def wake : WorkerState → WorkerState
  | .waiting => .woken
  | state => state

def isWaiting : WorkerState → Bool
  | .waiting => true
  | _ => false

def atLock : WorkerState → Bool
  | .idle => true
  | .woken => true
  | _ => false

def serves : WorkerState → Option Fd
  | .serving clientFd _ => some clientFd
  | _ => none

end WorkerState

namespace Pool

variable {threads : Nat}

def setWorker (pool : Pool threads) (index : Fin threads) (state : WorkerState) : Pool threads :=
  { pool with worker := Function.update pool.worker index state }

def signalNotEmpty (pool : Pool threads) : Option (Fin threads) → Pool threads
  | none => pool
  | some index => pool.setWorker index (pool.worker index).wake

def signalNotFull (pool : Pool threads) : Pool threads :=
  { pool with acceptor := pool.acceptor.wake }

def accept (pool : Pool threads) (clientFd : Fd) : Pool threads :=
  { pool with acceptor := .holding clientFd, kernel := pool.kernel.openConn clientFd }

/-- The section of `welcome_client` under the mutex. -/
def enqueue (pool : Pool threads) (clientFd : Fd) (signalled : Option (Fin threads)) :
    Pool threads :=
  if pool.queue.count = maxTask then { pool with acceptor := .waiting clientFd }
  else signalNotEmpty
    { pool with queue := pool.queue.push clientFd, acceptor := .accepting } signalled

def dequeue (pool : Pool threads) (index : Fin threads)
    (message : List.Vector Byte messageSize) : Pool threads :=
  if pool.queue.count = 0 then pool.setWorker index .waiting
  else
    let (clientFd, queue) := pool.queue.pop
    signalNotFull
      { pool.setWorker index (.serving clientFd (Session.start message)) with
        queue := queue
        handed := pool.handed ++ [pool.kernel.file clientFd] }

/-- One system call of `handle_client`, and the worker's next turn when it has returned. -/
def handle (pool : Pool threads) (index : Fin threads) (clientFd : Fd) (session : Session)
    (ready : RecvResult) (room : SendResult) : Pool threads :=
  let (after, events) := session.step ready room
  { pool.setWorker index
      (match after with
        | some session => .serving clientFd session
        | none => .idle) with
    kernel := pool.kernel.exec (events.map (.io clientFd)) }

def advance (pool : Pool threads) : Label threads → Option (Pool threads)
  | .accept result =>
      match pool.acceptor with
      | .accepting =>
          match result with
          | .ok clientFd => some (pool.accept clientFd)
          | .error _ => some pool
      | _ => none
  | .enqueue signalled =>
      match pool.acceptor with
      | .holding clientFd => some (pool.enqueue clientFd signalled)
      | .woken clientFd => some (pool.enqueue clientFd signalled)
      | _ => none
  | .dequeue index message =>
      if (pool.worker index).atLock then some (pool.dequeue index message) else none
  | .handle index ready room =>
      match pool.worker index with
      | .serving clientFd session => some (pool.handle index clientFd session ready room)
      | _ => none
  | .wakeWorker index =>
      if (pool.worker index).isWaiting then
        some (pool.setWorker index (pool.worker index).wake)
      else none
  | .wakeAcceptor =>
      match pool.acceptor with
      | .waiting clientFd => some { pool with acceptor := .woken clientFd }
      | _ => none

def boot (threads : Nat) (serverFd : Fd) (cells : Fin maxTask → Fd) : Pool threads where
  queue := queueInit cells
  worker _ := .idle
  acceptor := .accepting
  kernel := Kernel.boot serverFd
  handed := []

end Pool

/-- `accept` returns a descriptor that is not open, and a signal wakes a blocked thread if
there is one. -/
def Honest {threads : Nat} (pool : Pool threads) : Label threads → Prop
  | .accept result => ∀ clientFd ∈ result.toOption,
      0 ≤ clientFd ∧ pool.kernel.file clientFd = .closed
  | .enqueue none => ∀ index, (pool.worker index).isWaiting = false
  | .enqueue (some index) => (pool.worker index).isWaiting = true
  | _ => True

inductive Place (threads : Nat) where
  | cell (index : Fin maxTask)
  | worker (index : Fin threads)
  | acceptor

def Holds {threads : Nat} (pool : Pool threads) (fd : Fd) : Place threads → Prop
  | .cell index => pool.queue.Occupied index ∧ pool.queue.cells index = fd
  | .worker index => (pool.worker index).serves = some fd
  | .acceptor => pool.acceptor.held = some fd

def system (threads : Nat) : System (Pool threads) (Label threads) where
  init pool := ∃ serverFd cells, pool = Pool.boot threads serverFd cells
  step pool label after := Honest pool label ∧ pool.advance label = some after

instance {threads : Nat} (pool : Pool threads) : (label : Label threads) →
    Decidable (Honest pool label)
  | .accept result => inferInstanceAs (Decidable (∀ clientFd ∈ result.toOption, _ ∧ _))
  | .enqueue none => inferInstanceAs (Decidable (∀ index, (pool.worker index).isWaiting = false))
  | .enqueue (some index) => inferInstanceAs (Decidable ((pool.worker index).isWaiting = true))
  | .dequeue _ _ => .isTrue trivial
  | .handle _ _ _ => .isTrue trivial
  | .wakeWorker _ => .isTrue trivial
  | .wakeAcceptor => .isTrue trivial

def next {threads : Nat} (pool : Pool threads) (label : Label threads) : Option (Pool threads) :=
  if Honest pool label then pool.advance label else none

theorem next_sound {threads : Nat} (pool : Pool threads) (label : Label threads)
    (after : Pool threads) (result : next pool label = some after) :
    (system threads).step pool label after := by
  unfold next at result
  split_ifs at result with honest
  exact ⟨honest, result⟩

inductive Taken {threads : Nat} (pool : Pool threads) : Pool threads → Prop where
  | accepted (clientFd : Fd) (free : pool.acceptor = .accepting) (valid : 0 ≤ clientFd)
      (unused : pool.kernel.file clientFd = .closed) : Taken pool (pool.accept clientFd)
  | refused : Taken pool pool
  | enqueued (clientFd : Fd) (signalled : Option (Fin threads))
      (held : pool.acceptor = .holding clientFd ∨ pool.acceptor = .woken clientFd)
      (honest : Honest pool (.enqueue signalled)) : Taken pool (pool.enqueue clientFd signalled)
  | dequeued (index : Fin threads) (message : List.Vector Byte messageSize)
      (ready : pool.worker index = .idle ∨ pool.worker index = .woken) :
      Taken pool (pool.dequeue index message)
  | handled (index : Fin threads) (clientFd : Fd) (session : Session) (ready : RecvResult)
      (room : SendResult) (serves : pool.worker index = .serving clientFd session) :
      Taken pool (pool.handle index clientFd session ready room)
  | workerWoken (index : Fin threads) (blocked : pool.worker index = .waiting) :
      Taken pool (pool.setWorker index .woken)
  | acceptorWoken (clientFd : Fd) (blocked : pool.acceptor = .waiting clientFd) :
      Taken pool { pool with acceptor := .woken clientFd }

theorem taken_of_step {threads : Nat} {pool after : Pool threads} {label : Label threads}
    (step : (system threads).step pool label after) : Taken pool after := by
  obtain ⟨honest, result⟩ := step
  cases label with
  | accept answer =>
      simp only [Pool.advance] at result
      split at result
      · rename_i free
        split at result
        · rename_i clientFd
          rw [Option.some.injEq] at result
          subst result
          obtain ⟨valid, unused⟩ := honest clientFd rfl
          exact .accepted clientFd free valid unused
        · rw [Option.some.injEq] at result
          subst result
          exact .refused
      · cases result
  | enqueue signalled =>
      simp only [Pool.advance] at result
      split at result
      · rename_i clientFd holding
        rw [Option.some.injEq] at result
        subst result
        exact .enqueued clientFd signalled (Or.inl holding) honest
      · rename_i clientFd woken
        rw [Option.some.injEq] at result
        subst result
        exact .enqueued clientFd signalled (Or.inr woken) honest
      · cases result
  | dequeue index message =>
      simp only [Pool.advance] at result
      split_ifs at result with ready
      rw [Option.some.injEq] at result
      subst result
      apply Taken.dequeued
      cases state : pool.worker index with
      | idle => exact Or.inl rfl
      | woken => exact Or.inr rfl
      | waiting => simp [state, WorkerState.atLock] at ready
      | serving clientFd session => simp [state, WorkerState.atLock] at ready
  | handle index ready room =>
      simp only [Pool.advance] at result
      split at result
      · rename_i clientFd session serves
        rw [Option.some.injEq] at result
        subst result
        exact .handled index clientFd session ready room serves
      · cases result
  | wakeWorker index =>
      simp only [Pool.advance] at result
      split_ifs at result with isWaiting
      rw [Option.some.injEq] at result
      subst result
      cases state : pool.worker index with
      | waiting => exact .workerWoken index state
      | idle => simp [state, WorkerState.isWaiting] at isWaiting
      | woken => simp [state, WorkerState.isWaiting] at isWaiting
      | serving clientFd session => simp [state, WorkerState.isWaiting] at isWaiting
  | wakeAcceptor =>
      simp only [Pool.advance] at result
      split at result
      · rename_i clientFd waiting
        rw [Option.some.injEq] at result
        subst result
        exact .acceptorWoken clientFd waiting
      · cases result

end LinuxSystemPrograms.PthreadPool
