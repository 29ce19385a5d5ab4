import LinuxSystemPrograms.ConnectionAccount
import LinuxSystemPrograms.Transition
import Mathlib.Data.List.FinRange

/-!
# `tcp_select_server_v2.c`

A pass of the main loop is a function of the server's state and of what the kernel
answers in that pass (`Round`). Within one pass each descriptor gets at most one `recv`
and one `send`, so the answers are given by descriptor. An `fd_set` is a set of
descriptors; the loop goes on for ever unless `select` fails for good.
-/

namespace LinuxSystemPrograms.SelectServerV2

open LinuxSystemPrograms.ConnectionAccount
open LinuxSystemPrograms.EchoClient
open LinuxSystemPrograms.Sockets
open LinuxSystemPrograms.Transition

set_option autoImplicit false

def maxConnections : Nat := 256

abbrev Slot := Fin maxConnections

abbrev FdSet := Fd → Bool

def fdZero : FdSet := fun _ => false

def fdSet (fds : FdSet) (fd : Fd) : FdSet := Function.update fds fd true

def fdClr (fds : FdSet) (fd : Fd) : FdSet := Function.update fds fd false

structure Server where
  client : Slot → Client
  serverFd : Fd
  readfds : FdSet
  writefds : FdSet
  masterRead : FdSet
  masterWrite : FdSet
  maxFd : Fd

/-- `nonblock` is whether `set_nonblock` succeeds on the accepted descriptor. -/
structure Round where
  readable : FdSet
  writable : FdSet
  accept : Except Errno Fd
  nonblock : Bool
  recv : Fd → RecvResult
  send : Fd → SendResult

inductive Selected where
  | interrupted
  | failed
  | ready (round : Round)

def recvCode : RecvExit → Int
  | .drained => 0
  | .again => 0
  | _ => -1

def sendCode : SendExit → Int
  | .sendZero => -1
  | .sendError => -1
  | _ => 0

def handleRecv (client : Client) (ready : RecvResult) : Client × Int × List Event :=
  recvHandler recvCode client ready

def handleSend (client : Client) (room : SendResult) : Client × Int × List Event :=
  sendHandler sendCode client room

/-- The first slot with `client_fd == -1` gets the descriptor; nothing else is written. -/
def allocClient (client : Slot → Client) (fd : Fd) : Option (Slot × (Slot → Client)) :=
  ((List.finRange maxConnections).find? fun slot => (client slot).clientFd = -1).map
    fun slot => (slot, Function.update client slot { client slot with clientFd := fd })

def boot (serverFd : Fd) : Server where
  client _ := Client.init
  serverFd := serverFd
  readfds := fdSet fdZero serverFd
  writefds := fdZero
  masterRead := fdSet fdZero serverFd
  masterWrite := fdZero
  maxFd := serverFd

/-- `select(max_fd + 1, &readfds, &writefds, ..)` leaves the ready ones in both sets. -/
def select (round : Round) (server : Server) : Server :=
  { server with
    readfds := fun fd => server.readfds fd && round.readable fd && decide (fd ≤ server.maxFd)
    writefds := fun fd => server.writefds fd && round.writable fd && decide (fd ≤ server.maxFd) }

def acceptClient (round : Round) (server : Server) : Server × List (Action Return) :=
  if server.readfds server.serverFd then
    match round.accept with
    | .error _ => (server, [])
    | .ok tempFd =>
        if round.nonblock then
          match allocClient server.client tempFd with
          | none => (server, [.accept tempFd, .io tempFd .close])
          | some (slot, client) =>
              ({ server with
                  client := client
                  maxFd := if tempFd > server.maxFd then tempFd else server.maxFd
                  masterRead := fdSet server.masterRead (client slot).clientFd },
                [.accept tempFd])
        else (server, [.accept tempFd, .io tempFd .close])
  else (server, [])

def closeSlot (server : Server) (slot : Slot) : Server :=
  { server with
    masterRead := fdClr server.masterRead (server.client slot).clientFd
    masterWrite := fdClr server.masterWrite (server.client slot).clientFd
    client := Function.update server.client slot (server.client slot).reset }

/-- The read half of the loop body; the flag is false after `continue`. -/
def readStage (round : Round) (server : Server) (slot : Slot) :
    Server × List (Action Return) × Bool :=
  let fd := (server.client slot).clientFd
  if server.readfds fd then
    let (after, flag, events) := handleRecv (server.client slot) (round.recv fd)
    let queued := { server with
      client := Function.update server.client slot after
      masterWrite := if after.sendOffset < after.sendLen
        then fdSet server.masterWrite after.clientFd else server.masterWrite }
    if flag = -1 then (closeSlot queued slot, (events ++ [ConnEvent.close]).map (.io fd), false)
    else (queued, events.map (.io fd), true)
  else (server, [], true)

def writeStage (round : Round) (server : Server) (slot : Slot) :
    Server × List (Action Return) :=
  let fd := (server.client slot).clientFd
  if server.writefds fd then
    let (after, tag, events) := handleSend (server.client slot) (round.send fd)
    let flushed := { server with client := Function.update server.client slot after }
    if tag = -1 then (closeSlot flushed slot, (events ++ [ConnEvent.close]).map (.io fd))
    else
      ({ flushed with
          masterWrite := if after.sendLen = after.sendOffset
            then fdClr server.masterWrite after.clientFd else server.masterWrite },
        events.map (.io fd))
  else (server, [])

def serveSlot (round : Round) (server : Server) (slot : Slot) : Server × List (Action Return) :=
  if (server.client slot).clientFd = -1 then (server, [])
  else
    let (read, readActions, goOn) := readStage round server slot
    if goOn then
      let (written, writeActions) := writeStage round read slot
      (written, readActions ++ writeActions)
    else (read, readActions)

def scan (round : Round) : List Slot → Server → Server × List (Action Return)
  | [], server => (server, [])
  | slot :: rest, server =>
      let (served, actions) := serveSlot round server slot
      let (scanned, later) := scan round rest served
      (scanned, actions ++ later)

def reload (server : Server) : Server :=
  { server with readfds := server.masterRead, writefds := server.masterWrite }

def dropped (server : Server) (slot : Slot) (after : Client) : Server :=
  { server with
    client := Function.update server.client slot after.reset
    masterRead := fdClr server.masterRead (server.client slot).clientFd
    masterWrite := fdClr server.masterWrite (server.client slot).clientFd }

theorem fd_clr_set (fds : FdSet) (fd : Fd) : fdClr (fdSet fds fd) fd = fdClr fds fd :=
  Function.update_idem _ _ _

def opened (server : Server) (slot : Slot) (fd : Fd) : Server :=
  { server with
    client := Function.update server.client slot { server.client slot with clientFd := fd }
    maxFd := if fd > server.maxFd then fd else server.maxFd
    masterRead := fdSet server.masterRead fd }

theorem alloc_client_some {client after : Slot → Client} {fd : Fd} {slot : Slot}
    (allocated : allocClient client fd = some (slot, after)) :
    (client slot).clientFd = -1 ∧
      after = Function.update client slot { client slot with clientFd := fd } := by
  obtain ⟨found, isFree, same⟩ := Option.map_eq_some_iff.mp allocated
  cases same
  exact ⟨by simpa using List.find?_some isFree, rfl⟩

theorem alloc_client_none {client : Slot → Client} {fd : Fd}
    (full : allocClient client fd = none) (slot : Slot) : (client slot).clientFd ≠ -1 := by
  have noSlot := List.find?_eq_none.mp (Option.map_eq_none_iff.mp full) slot
    (List.mem_finRange slot)
  simpa using noSlot

/-- The three ways through the accept block. -/
theorem accept_cases (round : Round) (server : Server) :
    ((server.readfds server.serverFd = false ∨ ∃ reason, round.accept = .error reason) ∧
        acceptClient round server = (server, [])) ∨
      (∃ fd, round.accept = .ok fd ∧ server.readfds server.serverFd = true ∧
        (round.nonblock = false ∨ ∀ slot, (server.client slot).clientFd ≠ -1) ∧
        acceptClient round server = (server, [.accept fd, .io fd .close])) ∨
      (∃ fd slot, round.accept = .ok fd ∧ server.readfds server.serverFd = true ∧
        (server.client slot).clientFd = -1 ∧
        acceptClient round server = (opened server slot fd, [.accept fd])) := by
  unfold acceptClient
  cases ready : server.readfds server.serverFd with
  | false => exact Or.inl ⟨Or.inl rfl, rfl⟩
  | true =>
      rw [if_pos rfl]
      cases result : round.accept with
      | error reason => exact Or.inl ⟨Or.inr ⟨reason, rfl⟩, rfl⟩
      | ok fd =>
          right
          cases nonblock : round.nonblock with
          | false => exact Or.inl ⟨fd, rfl, rfl, Or.inl rfl, rfl⟩
          | true =>
              cases allocated : allocClient server.client fd with
              | none =>
                  exact Or.inl
                    ⟨fd, rfl, rfl, Or.inr (alloc_client_none allocated), by simp [allocated]⟩
              | some pair =>
                  obtain ⟨slot, after⟩ := pair
                  obtain ⟨free, afterEq⟩ := alloc_client_some allocated
                  subst afterEq
                  exact Or.inr ⟨fd, slot, rfl, rfl, free, by simp [allocated, opened]⟩

section Stages

variable {server : Server} {slot : Slot}

theorem read_stage_idle (round : Round)
    (idle : server.readfds (server.client slot).clientFd = false) :
    readStage round server slot = (server, [], true) := by
  simp [readStage, idle]

theorem read_stage_failed {round : Round} {result : RecvResult}
    (ready : server.readfds (server.client slot).clientFd = true)
    (answer : recv recvBufSize (round.recv (server.client slot).clientFd) = result)
    (failed : recvCode ((server.client slot).view.receive result).2 = -1) :
    readStage round server slot =
      (dropped server slot
          ((server.client slot).receive (round.recv (server.client slot).clientFd)).1,
        (recvEvents recvCode (server.client slot).view result ++ [ConnEvent.close]).map
          (.io (server.client slot).clientFd), false) := by
  obtain ⟨_, fdEq, codeEq, eventsEq⟩ := recv_handler_spec recvCode (server.client slot)
    (round.recv (server.client slot).clientFd)
  rw [answer] at codeEq eventsEq
  simp only [readStage, ready, if_true, handleRecv, codeEq, eventsEq, failed, closeSlot,
    Function.update_self, Function.update_idem, fdEq, dropped, Prod.mk.injEq, and_true,
    Server.mk.injEq, true_and]
  refine ⟨rfl, ?_⟩
  split_ifs
  · exact fd_clr_set _ _
  · rfl

theorem read_stage_kept {round : Round} {result : RecvResult}
    (ready : server.readfds (server.client slot).clientFd = true)
    (answer : recv recvBufSize (round.recv (server.client slot).clientFd) = result)
    (success : recvCode ((server.client slot).view.receive result).2 ≠ -1) :
    readStage round server slot =
      ({ server with
          client := Function.update server.client slot
            ((server.client slot).receive (round.recv (server.client slot).clientFd)).1
          masterWrite :=
            if ((server.client slot).view.receive result).1.queued ≠ []
            then fdSet server.masterWrite (server.client slot).clientFd
            else server.masterWrite },
        (recvEvents recvCode (server.client slot).view result).map
          (.io (server.client slot).clientFd), true) := by
  obtain ⟨viewEq, fdEq, codeEq, eventsEq⟩ := recv_handler_spec recvCode (server.client slot)
    (round.recv (server.client slot).clientFd)
  rw [answer] at viewEq codeEq eventsEq
  have queuedEq := congrArg LineEcho.queued viewEq
  rw [← queuedEq]
  simp only [readStage, ready, if_true, handleRecv, codeEq, eventsEq, success, if_false, fdEq]
  simp only [← Client.queued_ne_nil]
  rfl

theorem write_stage_idle (round : Round)
    (idle : server.writefds (server.client slot).clientFd = false) :
    writeStage round server slot = (server, []) := by
  simp [writeStage, idle]

theorem write_stage_failed {round : Round} {result : SendResult}
    (ready : server.writefds (server.client slot).clientFd = true)
    (answer : send (server.client slot).queued.length
      (round.send (server.client slot).clientFd) = result)
    (failed : sendCode ((server.client slot).view.flush result).2 = -1) :
    writeStage round server slot =
      (dropped server slot
          ((server.client slot).flush (round.send (server.client slot).clientFd)).1,
        (sendEvents sendCode (server.client slot).view result ++ [ConnEvent.close]).map
          (.io (server.client slot).clientFd)) := by
  obtain ⟨_, fdEq, codeEq, eventsEq⟩ := send_handler_spec sendCode (server.client slot)
    (round.send (server.client slot).clientFd)
  rw [answer] at codeEq eventsEq
  simp only [writeStage, ready, if_true, handleSend, codeEq, eventsEq, failed, closeSlot,
    Function.update_self, Function.update_idem, fdEq, dropped]
  rfl

theorem write_stage_kept {round : Round} {result : SendResult}
    (ready : server.writefds (server.client slot).clientFd = true)
    (answer : send (server.client slot).queued.length
      (round.send (server.client slot).clientFd) = result)
    (success : sendCode ((server.client slot).view.flush result).2 ≠ -1) :
    writeStage round server slot =
      ({ server with
          client := Function.update server.client slot
            ((server.client slot).flush (round.send (server.client slot).clientFd)).1
          masterWrite :=
            if ((server.client slot).view.flush result).1.queued = []
            then fdClr server.masterWrite (server.client slot).clientFd
            else server.masterWrite },
        (sendEvents sendCode (server.client slot).view result).map
          (.io (server.client slot).clientFd)) := by
  obtain ⟨viewEq, fdEq, codeEq, eventsEq⟩ := send_handler_spec sendCode (server.client slot)
    (round.send (server.client slot).clientFd)
  rw [answer] at viewEq codeEq eventsEq
  have queuedEq := congrArg LineEcho.queued viewEq
  rw [← queuedEq]
  simp only [writeStage, ready, if_true, handleSend, codeEq, eventsEq, success, if_false, fdEq]
  simp only [← Client.queued_eq_nil]
  rfl

end Stages

/-- Only what the slot's record holds changes, not its descriptor. -/
theorem update_client_fd {client : Slot → Client} {slot : Slot} {after : Client}
    (sameFd : after.clientFd = (client slot).clientFd) (index : Slot) :
    (Function.update client slot after index).clientFd = (client index).clientFd := by
  by_cases same : index = slot
  · rw [same, Function.update_self, sameFd]
  · rw [Function.update_of_ne same]

@[simp] theorem select_client (round : Round) (server : Server) :
    (select round server).client = server.client := rfl

@[simp] theorem select_server_fd (round : Round) (server : Server) :
    (select round server).serverFd = server.serverFd := rfl

@[simp] theorem reload_client (server : Server) : (reload server).client = server.client := rfl

@[irreducible] def serveRound (round : Round) (server : Server) : Server × List (Action Return) :=
  let accepted := acceptClient round (select round server)
  let scanned := scan round (List.finRange maxConnections) accepted.1
  (reload scanned.1, accepted.2 ++ scanned.2)

theorem serve_round_eq (round : Round) (server : Server) :
    serveRound round server =
      (reload (scan round (List.finRange maxConnections)
          (acceptClient round (select round server)).1).1,
        (acceptClient round (select round server)).2 ++
          (scan round (List.finRange maxConnections)
            (acceptClient round (select round server)).1).2) := by
  unfold serveRound
  with_reducible rfl

/-- One pass from a call of `select` to the next; `none` is the `break`. -/
def pass (server : Server) : Selected → Option (Server × List (Action Return))
  | .interrupted => some (server, [])
  | .failed => none
  | .ready round => some (serveRound round server)

structure World where
  server : Server
  kernel : Kernel Return

def system : System World Selected where
  init world := ∃ serverFd, 0 ≤ serverFd ∧ world = ⟨boot serverFd, Kernel.boot serverFd⟩
  step world selected after := ∃ actions,
    pass world.server selected = some (after.server, actions) ∧
      world.kernel.Admits actions ∧ after.kernel = world.kernel.exec actions

namespace World

def next (world : World) (round : Round) : World :=
  ⟨(serveRound round world.server).1, world.kernel.exec (serveRound round world.server).2⟩

def run : World → List Round → World
  | world, [] => world
  | world, round :: rest => (world.next round).run rest

def AdmitsRun : World → List Round → Prop
  | _, [] => True
  | world, round :: rest =>
      world.kernel.Admits (serveRound round world.server).2 ∧ (world.next round).AdmitsRun rest

instance decidableAdmitsRun : (rounds : List Round) → (world : World) →
    Decidable (world.AdmitsRun rounds)
  | [], _ => isTrue trivial
  | round :: rest, world =>
      have := decidableAdmitsRun rest (world.next round)
      inferInstanceAs (Decidable (_ ∧ _))

/-- A pass changes nothing, or it is a round that the kernel admits. -/
theorem step_cases {world after : World} {selected : Selected}
    (stepped : system.step world selected after) :
    after = world ∨ ∃ round, selected = .ready round ∧ after = world.next round ∧
      world.kernel.Admits (serveRound round world.server).2 := by
  obtain ⟨actions, passed, admitted, kernelEq⟩ := stepped
  cases selected with
  | interrupted =>
      left
      obtain ⟨serverEq, actionsEq⟩ := Prod.mk.inj (Option.some.inj passed)
      rw [← actionsEq, Kernel.exec_nil] at kernelEq
      cases world
      cases after
      exact congrArg₂ World.mk serverEq.symm kernelEq
  | failed => cases passed
  | ready round =>
      right
      have same : serveRound round world.server = (after.server, actions) := Option.some.inj passed
      refine ⟨round, rfl, ?_, ?_⟩
      · rw [next, same, ← kernelEq]
      · rw [same]
        exact admitted

def AllowedRun (Allowed : World → Selected → Prop) : World → List Round → Prop
  | _, [] => True
  | world, round :: rest =>
      Allowed world (.ready round) ∧ AllowedRun Allowed (world.next round) rest

instance decidableAllowedRun (Allowed : World → Selected → Prop)
    [∀ world selected, Decidable (Allowed world selected)] :
    (rounds : List Round) → (world : World) → Decidable (AllowedRun Allowed world rounds)
  | [], _ => isTrue trivial
  | round :: rest, world =>
      have := decidableAllowedRun Allowed rest (world.next round)
      inferInstanceAs (Decidable (_ ∧ _))

theorem step_next {world : World} {round : Round}
    (admitted : world.kernel.Admits (serveRound round world.server).2) :
    system.step world (.ready round) (world.next round) :=
  ⟨(serveRound round world.server).2, by rw [pass, next], admitted, by rw [next]⟩

theorem reachable_guarded_run {Allowed : World → Selected → Prop} {world : World}
    (reached : Reachable (guarded system Allowed) world) (rounds : List Round)
    (admitted : world.AdmitsRun rounds) (allowed : AllowedRun Allowed world rounds) :
    Reachable (guarded system Allowed) (world.run rounds) := by
  induction rounds generalizing world with
  | nil => exact reached
  | cons round rest ih =>
      rw [AdmitsRun] at admitted
      rw [AllowedRun] at allowed
      rw [run]
      have stepped : (guarded system Allowed).step world (.ready round) (world.next round) :=
        ⟨allowed.1, step_next admitted.1⟩
      exact ih (.next _ reached stepped) admitted.2 allowed.2

theorem reachable_run {world : World} (reached : Reachable system world) (rounds : List Round)
    (admitted : world.AdmitsRun rounds) : Reachable system (world.run rounds) := by
  induction rounds generalizing world with
  | nil => exact reached
  | cons round rest ih =>
      rw [AdmitsRun] at admitted
      rw [run]
      exact ih (.next _ reached (step_next admitted.1)) admitted.2

end World

end LinuxSystemPrograms.SelectServerV2
