import LinuxSystemPrograms.CheckedArray
import LinuxSystemPrograms.ConnectionAccount
import LinuxSystemPrograms.Transition
import Mathlib.Data.Int.Range

/-!
# `tcp_poll_server_v1.c`

`fds` and `client` are two arrays whose indices differ by one. A step is one call of
`poll` or one pass of the `for` loop; `none` is an access outside an array, and a run ends
there. The kernel answers `POLLNVAL` for an entry whose descriptor is not open, a bit that
nobody reads.
-/

namespace LinuxSystemPrograms.PollServerV1

open LinuxSystemPrograms.CheckedArray
open LinuxSystemPrograms.ConnectionAccount
open LinuxSystemPrograms.EchoClient
open LinuxSystemPrograms.Sockets
open LinuxSystemPrograms.Transition

set_option autoImplicit false

def maxConnections : Int := 256

structure Events where
  pollin : Bool
  pollout : Bool
  pollhup : Bool
  pollerr : Bool
  deriving DecidableEq, Repr

namespace Events

def zero : Events := ⟨false, false, false, false⟩

def read : Events := ⟨true, false, false, false⟩

def down (events : Events) : Bool := events.pollhup || events.pollerr

/-- `poll` reports what was asked for, and errors and hang-ups unasked. -/
def Reports (asked revents : Events) : Prop :=
  (revents.pollin = true → asked.pollin = true) ∧ (revents.pollout = true → asked.pollout = true)

instance (asked revents : Events) : Decidable (asked.Reports revents) :=
  inferInstanceAs (Decidable (_ ∧ _))

end Events

structure PollFd where
  fd : Fd
  events : Events
  revents : Events
  deriving DecidableEq, Repr

structure Tables where
  fds : CArray (maxConnections + 1) PollFd
  client : CArray maxConnections Client

structure Server where
  tables : Tables
  serverFd : Fd
  activeConns : Int

structure Answers where
  accept : Except Errno Fd
  recv : RecvResult
  send : SendResult

/-- There is no branch for `EAGAIN`. -/
def recvCode : RecvExit → Int
  | .drained => 0
  | .disconnected => 0
  | _ => -1

def sendCode : SendExit → Int
  | .sendZero => -1
  | .sendError => -1
  | _ => 0

def armOut (fds : CArray (maxConnections + 1) PollFd) (i : Int) (armed : Bool) :
    Option (CArray (maxConnections + 1) PollFd) := do
  let entry ← fds.get i
  fds.set i { entry with events := { entry.events with pollout := armed } }

/-- `POLLOUT` is armed at the end of the function, which an early return does not reach. -/
def handleRecv (tables : Tables) (i : Int) (ready : RecvResult) :
    Option (Tables × Int × List (Action Return)) := do
  let before ← tables.client.get (i - 1)
  let handled := recvHandler recvCode before ready
  let client ← tables.client.set (i - 1) handled.1
  let fds ← (if (before.receive ready).2 = .drained ∧ handled.1.sendOffset < handled.1.sendLen
    then armOut tables.fds i true else some tables.fds)
  return (⟨fds, client⟩, handled.2.1, handled.2.2.map (.io before.clientFd))

def handleSend (tables : Tables) (i : Int) (room : SendResult) :
    Option (Tables × Int × List (Action Return)) := do
  let before ← tables.client.get (i - 1)
  let handled := sendHandler sendCode before room
  let client ← tables.client.set (i - 1) handled.1
  let fds ← (if (before.flush room).2 = .flushed
    then armOut tables.fds i false else some tables.fds)
  return (⟨fds, client⟩, handled.2.1, handled.2.2.map (.io before.clientFd))

/-- `fds[i] = fds[active_conns - 1]` and `c[i - 1] = c[active_conns - 2]`. -/
def moveLast (i : Int) (tables : Tables) (activeConns : Int) : Option Tables := do
  let last ← tables.fds.get (activeConns - 1)
  let fds ← tables.fds.set i last
  let lastClient ← tables.client.get (activeConns - 2)
  let client ← tables.client.set (i - 1) lastClient
  return ⟨fds, client⟩

/-- The cells that are cleared are those behind the ones the table gives up. -/
def removeConn (i : Int) (tables : Tables) (activeConns : Int) :
    Option (Tables × Int × List (Action Return)) :=
  if i < 0 ∨ activeConns < i then some (tables, -1, [])
  else do
    let entry ← tables.fds.get i
    let moved ← (if i ≠ activeConns - 1 then moveLast i tables activeConns else some tables)
    let slot ← moved.fds.get activeConns
    let fds ← moved.fds.set activeConns { slot with fd := -1, events := .zero }
    let record ← moved.client.get (activeConns - 1)
    let client ← moved.client.set (activeConns - 1) record.reset
    return (⟨fds, client⟩, activeConns - 1, [.io entry.fd .close])

/-- The server after a part of the loop body; `goOn` is false after `continue`. -/
structure Stage where
  server : Server
  actions : List (Action Return)
  goOn : Bool

/-- The entry keeps the `revents` that its index had for an earlier connection. -/
def acceptConn (answers : Answers) (server : Server) : Option Stage :=
  match answers.accept with
  | .error _ => some ⟨server, [], false⟩
  | .ok clientFd => do
      let slot ← server.tables.fds.get server.activeConns
      let fds ← server.tables.fds.set server.activeConns
        { slot with fd := clientFd, events := .read }
      let record ← server.tables.client.get (server.activeConns - 1)
      let client ← server.tables.client.set (server.activeConns - 1)
        { record with clientFd := clientFd }
      return ⟨{ server with
          tables := ⟨fds, client⟩
          activeConns := server.activeConns + 1 }, [.accept clientFd], false⟩

/-- Where `handle_recv` returns 0 the entry is removed, but the new length is not kept. -/
def readStage (answers : Answers) (i : Int) (revents : Events) (server : Server) :
    Option Stage :=
  if revents.pollin then do
    let (tables, ret, actions) ← handleRecv server.tables i answers.recv
    if ret = 0 then
      let (tables, _, closing) ← removeConn i tables server.activeConns
      return ⟨{ server with tables := tables }, actions ++ closing, false⟩
    else return ⟨{ server with tables := tables }, actions, true⟩
  else return ⟨server, [], true⟩

/-- The value of `handle_send` is not looked at. -/
def writeStage (answers : Answers) (i : Int) (revents : Events) (server : Server) :
    Option Stage :=
  if revents.pollout then do
    let (tables, _, actions) ← handleSend server.tables i answers.send
    return ⟨{ server with tables := tables }, actions, true⟩
  else return ⟨server, [], true⟩

def hangStage (i : Int) (revents : Events) (server : Server) : Option Stage :=
  if revents.down then do
    let (tables, activeConns, closing) ← removeConn i server.tables server.activeConns
    return ⟨{ server with tables := tables, activeConns := activeConns }, closing, false⟩
  else return ⟨server, [], true⟩

structure Passed where
  server : Server
  next : Int
  actions : List (Action Return)

/-- Both handlers leave `fds[i].revents` as it is; `i--; continue;` comes back to `i`. -/
def body (answers : Answers) (i : Int) (server : Server) : Option Passed := do
  let entry ← server.tables.fds.get i
  if entry.fd = server.serverFd ∧ entry.revents.pollin = true then
    let done ← acceptConn answers server
    return ⟨done.server, i + 1, done.actions⟩
  else
    let read ← readStage answers i entry.revents server
    if read.goOn = false then return ⟨read.server, i, read.actions⟩
    else
      let written ← writeStage answers i entry.revents read.server
      let done ← hangStage i entry.revents written.server
      return ⟨done.server, if done.goOn then i + 1 else i,
        read.actions ++ written.actions ++ done.actions⟩

/-- `cursor` is the index of the `for` loop, or nothing before `poll` is called. `hungUp` are
the connections for which `poll` has reported `POLLHUP` or `POLLERR`. -/
structure World where
  server : Server
  cursor : Option Int
  kernel : Kernel Return
  hungUp : Nat → Bool

inductive Label where
  | poll (report : Int → Events)
  | pollFailed
  | body (answers : Answers)

/-- The entries that `poll` is asked about. -/
def Server.Listed (server : Server) (k : Int) : Prop := 0 ≤ k ∧ k < server.activeConns

instance (server : Server) (k : Int) : Decidable (server.Listed k) :=
  inferInstanceAs (Decidable (_ ∧ _))

/-- `poll` writes the `revents` of the first `active_conns` entries. -/
def polled (report : Int → Events) (server : Server) : Server :=
  { server with
    tables := { server.tables with
      fds := ⟨fun k => if server.Listed k
        then { server.tables.fds.cell k with revents := report k }
        else server.tables.fds.cell k⟩ } }

def reportedDown (kernel : Kernel Return) (server : Server) (report : Int → Events) (id : Nat) :
    Bool :=
  (List.range server.activeConns.toNat).any fun k =>
    decide (kernel.file (server.tables.fds.cell k).fd = .conn id) && (report k).down

/-- The descriptor that the handlers would use in the next pass. -/
def World.clientFd (world : World) (i : Int) : Fd :=
  (world.server.tables.client.cell (i - 1)).clientFd

/-- What the kernel promises: of an entry that is not open it reports none of these bits, and
calls on a descriptor that is not open fail. -/
def Honest (world : World) : Label → Prop
  | .poll report => ∀ k, 0 ≤ k → k < world.server.activeConns →
      (world.server.tables.fds.cell k).events.Reports (report k) ∧
        (world.kernel.file (world.server.tables.fds.cell k).fd = .closed → report k = .zero)
  | .pollFailed => True
  | .body answers =>
      (∀ fd ∈ answers.accept.toOption, 0 ≤ fd ∧ world.kernel.file fd = .closed) ∧
        ∀ i ∈ world.cursor, world.kernel.file (world.clientFd i) = .closed →
          answers.recv.toOption = none ∧ answers.send.toOption = none

def scan (next : Int) (server : Server) : Option Int :=
  if next < server.activeConns then some next else none

def World.afterPoll (world : World) (report : Int → Events) : World :=
  { world with
    server := polled report world.server
    cursor := scan 0 world.server
    hungUp := fun id => world.hungUp id || reportedDown world.kernel world.server report id }

def World.afterBody (world : World) (passed : Passed) : World :=
  { world with
    server := passed.server
    cursor := scan passed.next passed.server
    kernel := world.kernel.exec passed.actions }

def advance (world : World) : Label → Option World
  | .poll report =>
      match world.cursor with
      | some _ => none
      | none => some (world.afterPoll report)
  | .pollFailed =>
      match world.cursor with
      | some _ => none
      | none => some world
  | .body answers =>
      match world.cursor with
      | none => none
      | some i => (body answers i world.server).map world.afterBody

/-- `_init_pollfd`, which leaves `revents` as the stack had it. -/
def initPollfd (stack : Int → Events) : CArray (maxConnections + 1) PollFd :=
  ⟨fun k => ⟨-1, .zero, stack k⟩⟩

def initClient : CArray maxConnections Client := ⟨fun _ => Client.init⟩

def boot (serverFd : Fd) (stack : Int → Events) : World where
  server :=
    { tables := ⟨(initPollfd stack).put 0 ⟨serverFd, .read, stack 0⟩, initClient⟩
      serverFd := serverFd
      activeConns := 1 }
  cursor := none
  kernel := Kernel.boot serverFd
  hungUp _ := false

def system : System World Label where
  init world := ∃ serverFd stack, 0 ≤ serverFd ∧ world = boot serverFd stack
  step world label after := Honest world label ∧ advance world label = some after

instance (world : World) : (label : Label) → Decidable (Honest world label)
  | .poll _ => inferInstanceAs (Decidable (∀ k, 0 ≤ k → k < _ → _))
  | .pollFailed => isTrue trivial
  | .body _ => inferInstanceAs (Decidable (_ ∧ _))

def next (world : World) (label : Label) : Option World :=
  if Honest world label then advance world label else none

theorem next_sound (world : World) (label : Label) (after : World)
    (result : next world label = some after) : system.step world label after := by
  unfold next at result
  split_ifs at result with honest
  exact ⟨honest, result⟩

theorem step_cases {world after : World} {label : Label} (taken : system.step world label after) :
    (∃ report, label = .poll report ∧ world.cursor = none ∧ after = world.afterPoll report) ∨
      (label = .pollFailed ∧ after = world) ∨
      ∃ answers i passed, label = .body answers ∧ world.cursor = some i ∧
        body answers i world.server = some passed ∧ after = world.afterBody passed := by
  obtain ⟨_, advanced⟩ := taken
  cases label with
  | poll report =>
      cases cursor : world.cursor with
      | some i => simp [advance, cursor] at advanced
      | none =>
          simp only [advance, cursor, Option.some.injEq] at advanced
          exact Or.inl ⟨report, rfl, rfl, advanced.symm⟩
  | pollFailed =>
      cases cursor : world.cursor with
      | some i => simp [advance, cursor] at advanced
      | none =>
          simp only [advance, cursor, Option.some.injEq] at advanced
          exact Or.inr (Or.inl ⟨rfl, advanced.symm⟩)
  | body answers =>
      cases cursor : world.cursor with
      | none => simp [advance, cursor] at advanced
      | some i =>
          simp only [advance, cursor, Option.map_eq_some_iff] at advanced
          obtain ⟨passed, result, rfl⟩ := advanced
          exact Or.inr (Or.inr ⟨answers, i, passed, rfl, rfl, result, rfl⟩)

/-! ## Short runs -/

def quiet : Answers where
  accept := .error .eagain
  recv := .error .eagain
  send := .error .eagain

def report (k : Int) (revents : Events) : Label :=
  .poll fun other => if other = k then revents else .zero

/-- Descriptor 5 is accepted and gets the entry with index 1. -/
def connect : List Label := [report 0 .read, .body { quiet with accept := .ok 5 }, .body quiet]

/-- `recv` finds the bytes for the only connection, and its entry is visited again. -/
def arrive (result : RecvResult) : List Label :=
  [report 1 .read, .body quiet, .body { quiet with recv := result }, .body quiet]

end LinuxSystemPrograms.PollServerV1
