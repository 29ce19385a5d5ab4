import LinuxSystemPrograms.SelectServerV2

/-!
# `tcp_select_server_v1.c`

The first select server keeps the connection with descriptor `fd` in `client[fd]` and goes
through the descriptors in order. It accepts in the middle of a pass, when the loop comes to
`server_fd`, and this may move the end of the loop. An index outside of `client` has no
result.

The answers of the kernel in a pass, the descriptor sets and `handle_recv` are those of the
second server.
-/

namespace LinuxSystemPrograms.SelectServerV1

open LinuxSystemPrograms.ConnectionAccount
open LinuxSystemPrograms.EchoClient
open LinuxSystemPrograms.SelectServerV2 (FdSet Round Selected fdClr fdSet fdZero handleRecv)
open LinuxSystemPrograms.Sockets

set_option autoImplicit false

def maxConnections : Nat := 10

abbrev Index := Fin maxConnections

structure Server where
  client : Index → Client
  serverFd : Fd
  readfds : FdSet
  writefds : FdSet
  masterRead : FdSet
  masterWrite : FdSet
  maxFds : Fd

def sendCode : SendExit → Int
  | .sendError => -1
  | _ => 0

def handleSend (client : Client) (room : SendResult) : Client × Int × List Event :=
  sendHandler sendCode client room

def boot (serverFd : Fd) : Server where
  client _ := Client.init
  serverFd := serverFd
  readfds := fdSet fdZero serverFd
  writefds := fdZero
  masterRead := fdSet fdZero serverFd
  masterWrite := fdZero
  maxFds := serverFd

/-- `select(max_fds + 1, &readfds, &writefds, ..)` leaves the ready ones in both sets. -/
def select (round : Round) (server : Server) : Server :=
  { server with
    readfds := fun fd => server.readfds fd && round.readable fd && decide (fd ≤ server.maxFds)
    writefds := fun fd => server.writefds fd && round.writable fd && decide (fd ≤ server.maxFds) }

def index (fd : Fd) : Option Index :=
  if bound : fd.toNat < maxConnections ∧ 0 ≤ fd then some ⟨fd.toNat, bound.1⟩ else none

/-- Of the record it takes, `accept` resets `used` only. -/
def acceptClient (round : Round) (server : Server) : Option (Server × List (Action Return)) :=
  match round.accept with
  | .error _ => some (server, [])
  | .ok tempFd =>
      if tempFd ≥ maxConnections then some (server, [.accept tempFd, .io tempFd .close])
      else (index tempFd).map fun slot =>
        ({ server with
            client := Function.update server.client slot
              { server.client slot with
                clientFd := tempFd
                used := 0
                usedBound := Nat.zero_le _ }
            maxFds := if tempFd > server.maxFds then tempFd else server.maxFds
            masterRead := fdSet server.masterRead tempFd },
          [.accept tempFd])

def closeIndex (server : Server) (slot : Index) (i : Fd) : Server :=
  { server with
    masterRead := fdClr server.masterRead i
    masterWrite := fdClr server.masterWrite i
    client := Function.update server.client slot (server.client slot).reset }

/-- The read half of the loop body; the flag is false after `continue`. -/
def readStage (round : Round) (server : Server) (slot : Index) (i : Fd) :
    Server × List (Action Return) × Bool :=
  let fd := (server.client slot).clientFd
  let (after, flag, events) := handleRecv (server.client slot) (round.recv fd)
  let queued := { server with
    client := Function.update server.client slot after
    masterWrite := if after.sendOffset < after.sendLen
      then fdSet server.masterWrite after.clientFd else server.masterWrite }
  if flag = -1 then (closeIndex queued slot i, events.map (.io fd) ++ [.io i .close], false)
  else (queued, events.map (.io fd), true)

def writeStage (round : Round) (server : Server) (slot : Index) (i : Fd) :
    Server × List (Action Return) :=
  if server.writefds i then
    let fd := (server.client slot).clientFd
    let (after, tag, events) := handleSend (server.client slot) (round.send fd)
    let flushed := { server with client := Function.update server.client slot after }
    if tag = -1 then (closeIndex flushed slot i, events.map (.io fd) ++ [.io i .close])
    else
      ({ flushed with
          masterWrite := if after.sendLen = after.sendOffset
            then fdClr server.masterWrite i else server.masterWrite },
        events.map (.io fd))
  else (server, [])

def serveIndex (round : Round) (server : Server) (slot : Index) (i : Fd) :
    Server × List (Action Return) :=
  if server.readfds i then
    let (read, readActions, goOn) := readStage round server slot i
    if goOn then
      let (written, writeActions) := writeStage round read slot i
      (written, readActions ++ writeActions)
    else (read, readActions)
  else writeStage round server slot i

def visit (round : Round) (server : Server) (i : Fd) :
    Option (Server × List (Action Return)) :=
  if server.readfds i = true ∧ i = server.serverFd then acceptClient round server
  else if server.readfds i || server.writefds i then
    (index i).map fun slot => serveIndex round server slot i
  else some (server, [])

/-- How far an `accept` can move the end of the loop. -/
def reach (round : Round) (server : Server) : Fd :=
  match round.accept with
  | .error _ => server.maxFds
  | .ok tempFd => max server.maxFds tempFd

def opened (server : Server) (slot : Index) (fd : Fd) : Server :=
  { server with
    client := Function.update server.client slot
      { server.client slot with
        clientFd := fd
        used := 0
        usedBound := Nat.zero_le _ }
    maxFds := max server.maxFds fd
    masterRead := fdSet server.masterRead fd }

section Accepting

variable {round : Round} {server : Server}

theorem accept_error {reason : Errno} (result : round.accept = .error reason) :
    acceptClient round server = some (server, []) := by
  rw [acceptClient, result]

theorem accept_refused {fd : Fd} (result : round.accept = .ok fd) (large : fd ≥ maxConnections) :
    acceptClient round server = some (server, [.accept fd, .io fd .close]) := by
  simp only [acceptClient, result, if_pos large]

theorem accept_opened {fd : Fd} (result : round.accept = .ok fd) (small : ¬fd ≥ maxConnections) :
    acceptClient round server =
      (index fd).map fun slot => (opened server slot fd, [.accept fd]) := by
  simp only [acceptClient, result, if_neg small, opened, max_def_lt, gt_iff_lt]

theorem reach_error {reason : Errno} (result : round.accept = .error reason) :
    reach round server = server.maxFds := by
  rw [reach, result]

theorem reach_ok {fd : Fd} (result : round.accept = .ok fd) :
    reach round server = max server.maxFds fd := by
  rw [reach, result]

theorem max_fds_reach (round : Round) (server : Server) : server.maxFds ≤ reach round server := by
  cases result : round.accept with
  | error reason => rw [reach_error result]
  | ok fd =>
      rw [reach_ok result]
      exact le_max_left _ _

theorem accept_max_fds {visited : Server} {actions : List (Action Return)}
    (accepted : acceptClient round server = some (visited, actions)) :
    visited.maxFds ≤ reach round server := by
  cases result : round.accept with
  | error reason =>
      rw [accept_error result] at accepted
      cases accepted
      exact max_fds_reach round server
  | ok fd =>
      by_cases large : fd ≥ maxConnections
      · rw [accept_refused result large] at accepted
        cases accepted
        exact max_fds_reach round server
      · rw [accept_opened result large] at accepted
        obtain ⟨slot, _, same⟩ := Option.map_eq_some_iff.mp accepted
        cases same
        rw [reach_ok result]
        exact le_refl _

end Accepting

theorem read_stage_max_fds (round : Round) (server : Server) (slot : Index) (i : Fd) :
    (readStage round server slot i).1.maxFds = server.maxFds := by
  simp only [readStage, closeIndex]
  split_ifs <;> rfl

theorem write_stage_max_fds (round : Round) (server : Server) (slot : Index) (i : Fd) :
    (writeStage round server slot i).1.maxFds = server.maxFds := by
  simp only [writeStage, closeIndex]
  split_ifs <;> rfl

theorem serve_index_max_fds (round : Round) (server : Server) (slot : Index) (i : Fd) :
    (serveIndex round server slot i).1.maxFds = server.maxFds := by
  simp only [serveIndex]
  split_ifs
  · exact (write_stage_max_fds round _ slot i).trans (read_stage_max_fds round server slot i)
  · exact read_stage_max_fds round server slot i
  · exact write_stage_max_fds round server slot i

theorem visit_max_fds {round : Round} {server visited : Server} {i : Fd}
    {actions : List (Action Return)} (result : visit round server i = some (visited, actions)) :
    visited.maxFds ≤ reach round server := by
  unfold visit at result
  split_ifs at result
  · exact accept_max_fds result
  · obtain ⟨slot, _, same⟩ := Option.map_eq_some_iff.mp result
    have bound := serve_index_max_fds round server slot i
    rw [same] at bound
    rw [bound]
    exact max_fds_reach round server
  · cases result
    exact max_fds_reach round server

theorem reach_visit {round : Round} {server visited : Server} {i : Fd}
    {actions : List (Action Return)} (result : visit round server i = some (visited, actions)) :
    reach round visited ≤ reach round server := by
  have bounded := visit_max_fds result
  cases accepted : round.accept with
  | error reason => rwa [reach_error accepted]
  | ok fd =>
      rw [reach_ok accepted] at bounded ⊢
      rw [reach_ok accepted]
      exact max_le bounded (le_max_right _ _)

/-- The distance to the end of the loop gets shorter although the end may move. -/
theorem distance_decreases {i bound limit after : Int} (more : i ≤ bound) (inReach : bound ≤ limit)
    (shrinks : after ≤ limit) : (after + 1 - (i + 1)).toNat < (limit + 1 - i).toNat := by
  omega

def scan (round : Round) (i : Fd) (server : Server) : Option (Server × List (Action Return)) :=
  if _more : i ≤ server.maxFds then
    match _result : visit round server i with
    | none => none
    | some (visited, actions) =>
        (scan round (i + 1) visited).map fun scanned => (scanned.1, actions ++ scanned.2)
  else some (server, [])
termination_by (reach round server + 1 - i).toNat
decreasing_by
  exact distance_decreases _more (max_fds_reach round server) (reach_visit _result)

def reload (server : Server) : Server :=
  { server with readfds := server.masterRead, writefds := server.masterWrite }

def serveRound (round : Round) (server : Server) : Option (Server × List (Action Return)) :=
  (scan round 0 (select round server)).map fun scanned => (reload scanned.1, scanned.2)

/-- One pass from a call of `select` to the next; `none` is the `break`, or an index outside
of `client`. -/
def pass (server : Server) : Selected → Option (Server × List (Action Return))
  | .interrupted => some (server, [])
  | .failed => none
  | .ready round => serveRound round server

structure World where
  server : Server
  kernel : Kernel Return

def World.next (world : World) (selected : Selected) : Option World :=
  (pass world.server selected).map fun passed => ⟨passed.1, world.kernel.exec passed.2⟩

end LinuxSystemPrograms.SelectServerV1
