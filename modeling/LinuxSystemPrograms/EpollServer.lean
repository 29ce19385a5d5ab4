import LinuxSystemPrograms.ConnectionAccount
import LinuxSystemPrograms.Transition

/-!
# `tcp_epoll_server_v2.c`

The event loop at the grain of one event: a step is either a call of `epoll_wait` that
fills the batch, or the body of the `for` loop for the next event of the batch. `Answers`
is what the kernel and the allocator answer in that body.

The first version of the server has the same loop. What differs between the two is a
`Variant`: the limits, the return values of `handle_recv`, and which of these values,
seen together with `EPOLLRDHUP`, mark the client for closing.
-/

namespace LinuxSystemPrograms.EpollServer

open LinuxSystemPrograms.ConnectionAccount
open LinuxSystemPrograms.EchoClient
open LinuxSystemPrograms.Sockets
open LinuxSystemPrograms.Transition

set_option autoImplicit false

structure Variant where
  maxConnections : Int
  maxEvents : Nat
  recvCode : RecvExit → Int
  hangupMarks : Int → Bool

def recvCodeV2 : RecvExit → Int
  | .drained => 0
  | .again => 0
  | .disconnected => 1
  | _ => -1

def epollV2 : Variant where
  maxConnections := 16384
  maxEvents := 8192
  recvCode := recvCodeV2
  hangupMarks ret := ret ≠ 0

/-- `1` reports that the last queued byte is out. -/
def sendCode : SendExit → Int
  | .flushed => 1
  | .sendZero => -1
  | .sendError => -1
  | _ => 0

theorem send_code_eq_one {exit : SendExit} : sendCode exit = 1 ↔ exit = .flushed := by
  cases exit <;> decide

/-- Addresses; `0` is `NULL`. -/
abbrev Ptr := Nat

structure Events where
  epollin : Bool
  epollout : Bool
  epollrdhup : Bool
  epollerr : Bool
  epollhup : Bool
  deriving DecidableEq, Repr

namespace Events

def listen : Events := ⟨true, false, false, false, false⟩

def read : Events := ⟨true, false, true, false, false⟩

def readWrite : Events := ⟨true, true, true, false, false⟩

/-- `epoll_wait` reports what was asked for, and errors and hang-ups unasked. -/
def Reports (mask reported : Events) : Prop :=
  (reported.epollin = true → mask.epollin = true) ∧
    (reported.epollout = true → mask.epollout = true) ∧
    (reported.epollrdhup = true → mask.epollrdhup = true)

instance (mask reported : Events) : Decidable (mask.Reports reported) :=
  inferInstanceAs (Decidable (_ ∧ _ ∧ _))

end Events

structure EpollEvent where
  events : Events
  ptr : Ptr
  deriving DecidableEq, Repr

structure Client extends EchoClient.Client where
  shouldClose : Bool

def initClient (cliFd : Fd) : Client where
  toClient := { EchoClient.Client.init with clientFd := cliFd }
  shouldClose := false

/-- `interest` is the kernel's side of `epfd`; `evs` is the part of the batch that the
`for` loop has not reached yet. -/
structure Server where
  conns : Int
  serverFd : Fd
  heap : Ptr → Option Client
  interest : Fd → Option EpollEvent
  evs : List EpollEvent

structure Answers where
  accept : Except Errno Fd
  nonblock : Bool
  malloc : Option Ptr
  ctlAdd : Bool
  recv : RecvResult
  ctlModRecv : Bool
  send : SendResult
  ctlModSend : Bool

def ctlMod (entry : Option EpollEvent) (event : EpollEvent) (succeeds : Bool) :
    Option EpollEvent :=
  if succeeds then entry.map fun _ => event else entry

/-- A client between two statements of the loop body, with its entry in the interest list
and what has been logged for it since the body began. -/
structure Handled where
  client : Client
  entry : Option EpollEvent
  ret : Int
  events : List Event

/-- `EPOLLOUT` is armed at the end of the function, which an early return does not reach. -/
def handleRecv (variant : Variant) (ptr : Ptr) (answers : Answers) (client : Client)
    (entry : Option EpollEvent) : Handled :=
  let after := (client.toClient.receive answers.recv).1
  let exit := (client.toClient.receive answers.recv).2
  { client := { client with toClient := after }
    entry := if exit = .drained ∧ after.sendOffset < after.sendLen
      then ctlMod entry ⟨.readWrite, ptr⟩ answers.ctlModRecv else entry
    ret := variant.recvCode exit
    events := (recvHandler variant.recvCode client.toClient answers.recv).2.2 }

def handleSend (ptr : Ptr) (answers : Answers) (client : Client) (entry : Option EpollEvent) :
    Handled :=
  let after := (client.toClient.flush answers.send).1
  let exit := (client.toClient.flush answers.send).2
  { client := { client with toClient := after }
    entry := if exit = .flushed
      then ctlMod entry ⟨.read, ptr⟩ answers.ctlModSend else entry
    ret := sendCode exit
    events := (sendHandler sendCode client.toClient answers.send).2.2 }

def readStage (variant : Variant) (ptr : Ptr) (revents : Events) (answers : Answers)
    (client : Client) (entry : Option EpollEvent) : Handled :=
  if revents.epollin then
    let handled := handleRecv variant ptr answers client entry
    let exit := (client.toClient.receive answers.recv).2
    { handled with
      client := { handled.client with
        shouldClose := client.shouldClose || decide (handled.ret = -1) ||
          (revents.epollrdhup && variant.hangupMarks handled.ret) }
      events := handled.events ++ [.note (.ofEvent revents.epollrdhup exit)] }
  else ⟨client, entry, 0, []⟩

/-- The `EPOLLOUT` branch up to the value of `handle_send`. -/
def writeStage (ptr : Ptr) (revents : Events) (answers : Answers) (client : Client)
    (entry : Option EpollEvent) : Handled :=
  if revents.epollout then handleSend ptr answers client entry
  else ⟨client, entry, 0, []⟩

def addConn (server : Server) : Server := { server with conns := server.conns + 1 }

def dropConn (server : Server) : Server := { server with conns := server.conns - 1 }

/-- `conns > MAX_CONNECTIONS`, after the increment. -/
def full (variant : Variant) (server : Server) : Prop :=
  (addConn server).conns > variant.maxConnections

instance (variant : Variant) (server : Server) : Decidable (full variant server) :=
  inferInstanceAs (Decidable (_ > _))

def acceptClient (variant : Variant) (answers : Answers) (server : Server) :
    Server × List (Action Return) :=
  match answers.accept with
  | .error _ => (server, [])
  | .ok cliFd =>
      let refuse := [Action.accept cliFd, .io cliFd .close]
      if answers.nonblock then
        if full variant server then (dropConn (addConn server), refuse)
        else
          match answers.malloc with
          | none => (dropConn (addConn server), refuse)
          | some client =>
              if answers.ctlAdd then
                ({ addConn server with
                    heap := Function.update server.heap client (some (initClient cliFd))
                    interest := Function.update server.interest cliFd
                      (some ⟨.read, client⟩) },
                  [.accept cliFd])
              else (dropConn (addConn server), refuse)
      else (server, refuse)

/-- `EPOLL_CTL_DEL`, `close` and `free`. -/
def destroy (server : Server) (ptr : Ptr) (fd : Fd) : Server :=
  { server with
    heap := Function.update server.heap ptr none
    interest := Function.update server.interest fd none }

/-- Both branches for a client; the value is that of `handle_send`. -/
def serveEvent (variant : Variant) (event : EpollEvent) (answers : Answers) (client : Client)
    (entry : Option EpollEvent) : Handled :=
  let read := readStage variant event.ptr event.events answers client entry
  let written := writeStage event.ptr event.events answers read.client read.entry
  { written with events := read.events ++ written.events }

/-- `handle_send` returning `-1` ends a client, and so does `1` when it is marked. -/
def serveClient (variant : Variant) (event : EpollEvent) (answers : Answers) (client : Client)
    (server : Server) : Server × List (Action Return) :=
  let fd := client.clientFd
  let served := serveEvent variant event answers client (server.interest fd)
  if served.ret = -1 then
    (destroy server event.ptr fd, (served.events ++ [ConnEvent.close]).map (.io fd))
  else if served.ret = 1 ∧ served.client.shouldClose = true then
    (destroy (dropConn server) event.ptr fd,
      (served.events ++ [ConnEvent.close]).map (.io fd))
  else
    ({ server with
        heap := Function.update server.heap event.ptr (some served.client)
        interest := Function.update server.interest fd served.entry },
      served.events.map (.io fd))

/-- The body of the `for` loop; `none` is an access through a pointer that names no
allocated client. -/
def dispatch (variant : Variant) (answers : Answers) (event : EpollEvent) (server : Server) :
    Option (Server × List (Action Return)) :=
  if event.ptr = 0 ∧ event.events.epollin = true then some (acceptClient variant answers server)
  else if event.events.epollin = true ∨ event.events.epollout = true then
    (server.heap event.ptr).map fun client => serveClient variant event answers client server
  else some (server, [])

structure World where
  server : Server
  kernel : Kernel Return

inductive Label where
  /-- `epoll_wait` returns; an interrupted call reports nothing. -/
  | wait (report : List (Fd × Events))
  | handle (answers : Answers)

def Honest (variant : Variant) (world : World) : Label → Prop
  | .wait report =>
      report.length ≤ variant.maxEvents + 1 ∧ (report.map Prod.fst).Nodup ∧
        ∀ ready ∈ report, ∃ entry ∈ world.server.interest ready.1, entry.events.Reports ready.2
  | .handle answers =>
      (∀ fd ∈ answers.accept.toOption, 0 ≤ fd ∧ world.kernel.file fd = .closed) ∧
        ∀ ptr ∈ answers.malloc, ptr ≠ 0 ∧ world.server.heap ptr = none

def batch (interest : Fd → Option EpollEvent) (report : List (Fd × Events)) : List EpollEvent :=
  report.filterMap fun ready => (interest ready.1).map fun entry => ⟨ready.2, entry.ptr⟩

def advance (variant : Variant) (world : World) : Label → Option World
  | .wait report =>
      match world.server.evs with
      | [] => some { world with
          server := { world.server with evs := batch world.server.interest report } }
      | _ :: _ => none
  | .handle answers =>
      match world.server.evs with
      | [] => none
      | event :: rest =>
          (dispatch variant answers event world.server).map fun done =>
            ⟨{ done.1 with evs := rest }, world.kernel.exec done.2⟩

/-- Nobody checks whether adding the listening socket succeeded. -/
def boot (serverFd : Fd) (added : Bool) : World where
  server :=
    { conns := 0
      serverFd := serverFd
      heap := fun _ => none
      interest := Function.update (fun _ => none) serverFd
        (if added then some ⟨.listen, 0⟩ else none)
      evs := [] }
  kernel := Kernel.boot serverFd

def system (variant : Variant) : System World Label where
  init world := ∃ serverFd added, 0 ≤ serverFd ∧ world = boot serverFd added
  step world label after := Honest variant world label ∧ advance variant world label = some after

instance (variant : Variant) (world : World) : (label : Label) →
    Decidable (Honest variant world label)
  | .wait _ => inferInstanceAs (Decidable (_ ∧ _ ∧ _))
  | .handle _ => inferInstanceAs (Decidable (_ ∧ _))

def next (variant : Variant) (world : World) (label : Label) : Option World :=
  if Honest variant world label then advance variant world label else none

theorem next_sound (variant : Variant) (world : World) (label : Label) (after : World)
    (result : next variant world label = some after) :
    (system variant).step world label after := by
  unfold next at result
  split_ifs at result with honest
  exact ⟨honest, result⟩

theorem read_stage_idle (variant : Variant) (ptr : Ptr) {revents : Events} (answers : Answers)
    (client : Client) (entry : Option EpollEvent) (idle : revents.epollin = false) :
    readStage variant ptr revents answers client entry = ⟨client, entry, 0, []⟩ := by
  simp [readStage, idle]

theorem write_stage_idle (ptr : Ptr) {revents : Events} (answers : Answers) (client : Client)
    (entry : Option EpollEvent) (idle : revents.epollout = false) :
    writeStage ptr revents answers client entry = ⟨client, entry, 0, []⟩ := by
  simp [writeStage, idle]

/-- The `EPOLLIN` branch in terms of the abstract record. -/
structure ReadSpec (variant : Variant) (ptr : Ptr) (revents : Events) (answers : Answers)
    (client : Client) (entry : Option EpollEvent) (echo : LineEcho) (exit : RecvExit)
    (handled : Handled) : Prop where
  view : handled.client.view = echo
  fd : handled.client.clientFd = client.clientFd
  marked : handled.client.shouldClose = (client.shouldClose ||
    decide (variant.recvCode exit = -1) ||
      (revents.epollrdhup && variant.hangupMarks (variant.recvCode exit)))
  entry : handled.entry =
    if exit = .drained ∧ echo.queued ≠ [] then ctlMod entry ⟨.readWrite, ptr⟩ answers.ctlModRecv
    else entry
  events : handled.events =
    recvEvents variant.recvCode client.view (recv recvBufSize answers.recv) ++
      [.note (.ofEvent revents.epollrdhup exit)]

theorem read_stage_spec (variant : Variant) (ptr : Ptr) {revents : Events} (answers : Answers)
    (client : Client) (entry : Option EpollEvent) (readable : revents.epollin = true) :
    ReadSpec variant ptr revents answers client entry
      (client.view.receive (recv recvBufSize answers.recv)).1
      (client.view.receive (recv recvBufSize answers.recv)).2
      (readStage variant ptr revents answers client entry) := by
  obtain ⟨viewEq, exitEq, fdEq⟩ := Client.receive_view client.toClient answers.recv
  have events := (recv_handler_spec variant.recvCode client.toClient answers.recv).2.2.2
  have pending : (client.toClient.receive answers.recv).1.sendOffset <
      (client.toClient.receive answers.recv).1.sendLen ↔
        (client.view.receive (recv recvBufSize answers.recv)).1.queued ≠ [] := by
    rw [← viewEq]
    exact Client.queued_ne_nil.symm
  unfold readStage
  rw [if_pos readable]
  constructor
  · exact viewEq
  · exact fdEq
  · simp only [handleRecv, exitEq]
  · simp only [handleRecv, exitEq, pending]
  · simp only [handleRecv, events, exitEq]

structure WriteSpec (ptr : Ptr) (answers : Answers) (client : Client)
    (entry : Option EpollEvent) (echo : LineEcho) (exit : SendExit) (handled : Handled) :
    Prop where
  view : handled.client.view = echo
  fd : handled.client.clientFd = client.clientFd
  marked : handled.client.shouldClose = client.shouldClose
  entry : handled.entry =
    if exit = .flushed then ctlMod entry ⟨.read, ptr⟩ answers.ctlModSend else entry
  ret : handled.ret = sendCode exit
  events : handled.events =
    sendEvents sendCode client.view (send client.queued.length answers.send)

theorem write_stage_spec (ptr : Ptr) {revents : Events} (answers : Answers) (client : Client)
    (entry : Option EpollEvent) (writable : revents.epollout = true) :
    WriteSpec ptr answers client entry
      (client.view.flush (send client.queued.length answers.send)).1
      (client.view.flush (send client.queued.length answers.send)).2
      (writeStage ptr revents answers client entry) := by
  obtain ⟨viewEq, exitEq, fdEq⟩ := Client.flush_view client.toClient answers.send
  unfold writeStage
  rw [if_pos writable]
  constructor
  · exact viewEq
  · exact fdEq
  · rfl
  · simp only [handleSend, exitEq]
  · simp only [handleSend, exitEq]
  · exact (send_handler_spec sendCode client.toClient answers.send).2.2.2

theorem drop_add_conn (server : Server) : dropConn (addConn server) = server := by
  simp [dropConn, addConn]

theorem accept_cases (variant : Variant) (answers : Answers) (server : Server) :
    acceptClient variant answers server = (server, []) ∨
      (∃ fd, answers.accept = .ok fd ∧
        acceptClient variant answers server = (server, [.accept fd, .io fd .close])) ∨
      ∃ fd ptr, answers.accept = .ok fd ∧ answers.malloc = some ptr ∧ ¬ full variant server ∧
        acceptClient variant answers server =
          ({ addConn server with
              heap := Function.update server.heap ptr (some (initClient fd))
              interest := Function.update server.interest fd (some ⟨.read, ptr⟩) },
            [.accept fd]) := by
  unfold acceptClient
  cases accepted : answers.accept with
  | error reason => exact Or.inl rfl
  | ok fd =>
      right
      cases nonblock : answers.nonblock with
      | false => exact Or.inl ⟨fd, rfl, rfl⟩
      | true =>
          by_cases isFull : full variant server
          · exact Or.inl ⟨fd, rfl, by simp [isFull, drop_add_conn]⟩
          · cases allocated : answers.malloc with
            | none => exact Or.inl ⟨fd, rfl, by simp [isFull, drop_add_conn]⟩
            | some ptr =>
                cases added : answers.ctlAdd with
                | false => exact Or.inl ⟨fd, rfl, by simp [isFull, drop_add_conn]⟩
                | true => exact Or.inr ⟨fd, ptr, rfl, rfl, isFull, by simp [isFull]⟩

/-- `handle_send` returned `-1`, or `1` for a marked client. -/
def Closing (handled : Handled) : Prop :=
  handled.ret = -1 ∨ (handled.ret = 1 ∧ handled.client.shouldClose = true)

/-- Nothing is closed without `EPOLLOUT`. -/
theorem not_closing_idle {ptr : Ptr} {revents : Events} {answers : Answers} {client : Client}
    {entry : Option EpollEvent} (idle : revents.epollout = false) :
    ¬ Closing (writeStage ptr revents answers client entry) := by
  rw [write_stage_idle ptr answers client entry idle]
  simp [Closing]

/-- Everything the loop body can do with an event. -/
theorem dispatch_cases {variant : Variant} {answers : Answers} {event : EpollEvent}
    {server : Server} {done : Server × List (Action Return)}
    (result : dispatch variant answers event server = some done) :
    done = (server, []) ∨
      (∃ fd, answers.accept = .ok fd ∧ done = (server, [.accept fd, .io fd .close])) ∨
      (∃ fd ptr, answers.accept = .ok fd ∧ answers.malloc = some ptr ∧ ¬ full variant server ∧
        done =
          ({ addConn server with
              heap := Function.update server.heap ptr (some (initClient fd))
              interest := Function.update server.interest fd (some ⟨.read, ptr⟩) },
            [.accept fd])) ∨
      ∃ client served, server.heap event.ptr = some client ∧
        served = serveEvent variant event answers client (server.interest client.clientFd) ∧
        ((¬ Closing served ∧ done =
            ({ server with
                heap := Function.update server.heap event.ptr (some served.client)
                interest := Function.update server.interest client.clientFd served.entry },
              served.events.map (.io client.clientFd))) ∨
          (Closing served ∧ done =
            (destroy (if served.ret = -1 then server else dropConn server) event.ptr
                client.clientFd,
              (served.events ++ [ConnEvent.close]).map (.io client.clientFd)))) := by
  unfold dispatch at result
  split_ifs at result with listener busy
  · rw [Option.some.injEq] at result
    subst result
    rcases accept_cases variant answers server with same | refused | opened
    · exact Or.inl same
    · exact Or.inr (Or.inl refused)
    · exact Or.inr (Or.inr (Or.inl opened))
  · right; right; right
    rw [Option.map_eq_some_iff] at result
    obtain ⟨client, live, rfl⟩ := result
    refine ⟨client, _, live, rfl, ?_⟩
    unfold serveClient
    by_cases failed :
        (serveEvent variant event answers client (server.interest client.clientFd)).ret = -1
    · exact Or.inr ⟨Or.inl failed, by simp [failed]⟩
    · by_cases finished :
          (serveEvent variant event answers client (server.interest client.clientFd)).ret = 1 ∧
            (serveEvent variant event answers client
              (server.interest client.clientFd)).client.shouldClose = true
      · exact Or.inr ⟨Or.inr finished, by simp [finished]⟩
      · refine Or.inl ⟨not_or.mpr ⟨failed, finished⟩, ?_⟩
        simp only [failed, finished, if_false]
  · rw [Option.some.injEq] at result
    exact Or.inl result.symm

/-! ## Runs of one connection -/

def quiet : Answers where
  accept := .error .eagain
  nonblock := true
  malloc := none
  ctlAdd := true
  recv := .error .eagain
  ctlModRecv := true
  send := .error .eagain
  ctlModSend := true

/-- Descriptor 5 is accepted and gets the client at address 1. -/
def connect : List Label :=
  [.wait [(3, .listen)], .handle { quiet with accept := .ok 5, malloc := some 1 }]

/-- `recv` finds the bytes on descriptor 5. -/
def arrive (rdhup : Bool) (result : RecvResult) : List Label :=
  [.wait [(5, { Events.listen with epollrdhup := rdhup })], .handle { quiet with recv := result }]

def depart (result : SendResult) : List Label :=
  [.wait [(5, ⟨false, true, false, false, false⟩)], .handle { quiet with send := result }]

end LinuxSystemPrograms.EpollServer
