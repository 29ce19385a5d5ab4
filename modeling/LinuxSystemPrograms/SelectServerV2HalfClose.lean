import LinuxSystemPrograms.SelectServerV2Turns

/-!
# End of stream in the second select server

`handle_recv` returns -1 for the end of the stream as it does for an error, and the loop
body closes the connection before it looks at `writefds`: what is queued then is lost. The
epoll servers of the repository flush first. A connection gets its whole echo when its queue
is empty at the end of its stream.
-/

namespace LinuxSystemPrograms.SelectServerV2HalfClose

open LinuxSystemPrograms.ConnectionAccount
open LinuxSystemPrograms.EchoBuffers
open LinuxSystemPrograms.EchoClient
open LinuxSystemPrograms.Framing
open LinuxSystemPrograms.SelectRoster
open LinuxSystemPrograms.SelectServerV2
open LinuxSystemPrograms.SelectServerV2Fidelity
open LinuxSystemPrograms.SelectServerV2Table
open LinuxSystemPrograms.SelectServerV2Turns
open LinuxSystemPrograms.Sockets
open LinuxSystemPrograms.Transition

set_option autoImplicit false

/-- A connection whose stream has ended has been sent every complete line of it. -/
def EchoedWhole (log : List Event) : Prop :=
  .recv (.ok []) ∈ log → sent log = complete newline (received log)

/-- An open connection: nothing is lost so far, only whole lines are queued, and its stream
goes on. -/
structure Flowing (log : List Event) (echo : LineEcho) : Prop where
  settled : Settled log echo
  lines : Framed newline (sent log ++ echo.queued)
  goesOn : .recv (.ok []) ∉ log

def Half (log : List Event) : Option Buffers → Prop
  | none => EchoedWhole log
  | some buffers => Flowing log buffers.echo

/-- Every connection that is found at the end of its stream has nothing queued. -/
def SentAtEnd (world : World) : Selected → Prop
  | .ready round => ∀ slot, (world.server.client slot).clientFd ≠ -1 →
      (select round world.server).readfds (world.server.client slot).clientFd = true →
      recv recvBufSize (round.recv (world.server.client slot).clientFd) = .ok [] →
      (world.server.client slot).sendOffset = (world.server.client slot).sendLen
  | _ => True

section Turns

variable {log : List Event} {echo : LineEcho}

theorem flowing_empty : Flowing [] LineEcho.empty where
  settled := ⟨accounted_empty, List.not_mem_nil⟩
  lines := framed_nil newline
  goesOn := List.not_mem_nil

theorem recv_in_recv_events {result other : RecvResult}
    (member : ConnEvent.recv other ∈ recvEvents recvCode echo result) : other = result := by
  simpa [recvEvents] using member

theorem recv_not_in_send_events {result : RecvResult} {room : SendResult} :
    ConnEvent.recv result ∉ sendEvents sendCode echo room := by
  unfold sendEvents
  split_ifs <;> simp

theorem flowing_receive (flowing : Flowing log echo) {result : RecvResult}
    (success : recvCode (echo.receive result).2 ≠ -1) :
    Flowing (log ++ recvEvents recvCode echo result) (echo.receive result).1 where
  settled := settled_receive flowing.settled result success
  lines := by
    rw [sent_append, sent_recv_events, List.append_nil]
    exact receive_lines result flowing.lines
  goesOn member := by
    rcases List.mem_append.mp member with early | now
    · exact flowing.goesOn early
    · have same := recv_in_recv_events now
      subst same
      exact success rfl

/-- The connection is closed in its read half. -/
theorem whole_receive (flowing : Flowing log echo) {result : RecvResult}
    (sentAtEnd : result = .ok [] → echo.queued = []) :
    EchoedWhole (log ++ (recvEvents recvCode echo result ++ [.close])) := by
  intro member
  have ended : result = .ok [] := by
    rcases List.mem_append.mp member with early | now
    · exact absurd early flowing.goesOn
    · rcases List.mem_append.mp now with call | last
      · exact (recv_in_recv_events call).symm
      · cases List.mem_singleton.mp last
  have account := flowing.settled.1
  have lines := flowing.lines
  rw [Accounted] at account
  rw [sentAtEnd ended, List.append_nil] at account lines
  subst ended
  have split : received log = sent log ++ echo.part := account.symm
  simp only [sent_append, sent_recv_events, received_append, received_recv_events, chunkOf,
    sent_cons, sent_nil, received_cons, received_nil, ConnEvent.sentBytes,
    ConnEvent.receivedBytes, List.append_nil]
  rw [split]
  exact (complete_append_unfinished lines flowing.settled.2).symm

theorem flowing_flush (flowing : Flowing log echo) (result : SendResult) :
    Flowing (log ++ sendEvents sendCode echo result) (echo.flush result).1 where
  settled := settled_flush flowing.settled result
  lines := by
    rw [sent_append, List.append_assoc, (sent_send_events sendCode echo result).1]
    exact flowing.lines
  goesOn member := by
    rcases List.mem_append.mp member with early | now
    · exact flowing.goesOn early
    · exact recv_not_in_send_events now

/-- The connection is closed in its write half: its stream has not ended. -/
theorem whole_flush (flowing : Flowing log echo) (result : SendResult) :
    EchoedWhole (log ++ (sendEvents sendCode echo result ++ [.close])) := by
  intro member
  rcases List.mem_append.mp member with early | now
  · exact absurd early flowing.goesOn
  · rcases List.mem_append.mp now with call | last
    · exact absurd call recv_not_in_send_events
    · cases List.mem_singleton.mp last

theorem half_read {buffers : Buffers} (flowing : Flowing log buffers.echo) (readable : Bool)
    (ready : RecvResult)
    (sentAtEnd : readable = true → recv recvBufSize ready = .ok [] → buffers.echo.queued = []) :
    Half (log ++ (serveRead readable ready buffers).2) (serveRead readable ready buffers).1 := by
  cases readable with
  | false =>
      rw [serveRead, if_neg Bool.false_ne_true, List.append_nil]
      exact flowing
  | true =>
      rw [serveRead, if_pos rfl, readConn, orClose]
      by_cases failed : recvCode (buffers.echo.receive (recv recvBufSize ready)).2 = -1
      · rw [if_pos failed]
        exact whole_receive flowing (sentAtEnd rfl)
      · rw [if_neg failed]
        exact flowing_receive flowing failed

theorem half_write {buffers : Buffers} (flowing : Flowing log buffers.echo) (writable : Bool)
    (room : SendResult) :
    Half (log ++ (serveWrite sendCode writable room buffers).2)
      (serveWrite sendCode writable room buffers).1 := by
  cases writable with
  | false =>
      rw [serveWrite, if_neg Bool.false_ne_true, List.append_nil]
      exact flowing
  | true =>
      rw [serveWrite, if_pos rfl, writeConn, orClose]
      by_cases failed : sendCode
          (buffers.echo.flush (send buffers.echo.queued.length room)).2 = -1
      · rw [if_pos failed]
        exact whole_flush flowing _
      · rw [if_neg failed]
        exact flowing_flush flowing _

theorem half_keeps {world : World} {roster : Roster} {round : Round}
    (tabled : Tabled world roster) (sentAtEnd : SentAtEnd world (.ready round)) :
    Keeps Half world round roster := by
  intro fd buffers log entry flowing
  have atEnd : (select round world.server).readfds fd = true →
      recv recvBufSize (round.recv fd) = .ok [] → buffers.echo.queued = [] := by
    intro readable ended
    obtain ⟨slot, busy, rfl, rfl⟩ := (roster_busy tabled.represents).mp entry
    exact Client.queued_eq_nil.mpr (sentAtEnd slot busy readable ended).symm
  have reading := half_read flowing _ (round.recv fd) atEnd
  cases servedEq : serveRead ((select round world.server).readfds fd) (round.recv fd) buffers with
  | mk left events =>
      rw [servedEq] at reading
      cases left with
      | none =>
          rw [serve_closed servedEq]
          exact reading
      | some middle =>
          rw [serve_open servedEq, ← List.append_assoc]
          exact half_write reading _ (round.send fd)

end Turns

/-- In every run in which no connection comes to the end of its stream with output queued,
every connection that comes to the end of its stream has been sent all its complete lines. -/
theorem half_close_echoes_whole {world : World}
    (reached : Reachable (guarded system SentAtEnd) world) (id : Nat)
    (ended : .recv (.ok []) ∈ world.kernel.log id) :
    sent (world.kernel.log id) = complete newline (received (world.kernel.log id)) := by
  have fresh : Half [] (some Buffers.empty) := flowing_empty
  have refused : Half [.close] none := fun member => by simp at member
  obtain ⟨roster, tabled, accounts⟩ := reachable_accounts fresh refused
    (fun world roster round => half_keeps) reached
  have serving := reachable_serving (reachable_of_guarded reached)
  by_cases named : ∃ fd, world.kernel.file fd = .conn id
  · obtain ⟨fd, owner⟩ := named
    have good := accounts.named fd id owner
    cases entry : roster fd with
    | none =>
        rw [entry] at good
        exact good ended
    | some buffers =>
        rw [entry] at good
        exact absurd ended good.goesOn
  · have accepted : id < world.kernel.accepted := by
      by_contra late
      rw [serving.formed.fresh id (not_lt.mp late)] at ended
      cases ended
    exact accounts.shut id accepted (not_exists.mp named) ended

instance (world : World) : (selected : Selected) → Decidable (SentAtEnd world selected)
  | .ready _ => inferInstanceAs (Decidable (∀ _, _ → _ → _ → _))
  | .interrupted => isTrue trivial
  | .failed => isTrue trivial

/-- Descriptor 5 is accepted and sends a line; what follows is `last`. -/
def oneLine (last : List Round) : List Round :=
  let quiet : Round :=
    { readable := fun _ => false
      writable := fun _ => false
      accept := .ok 5
      nonblock := true
      recv := fun _ => .ok [97, newline]
      send := fun _ => .ok 2 }
  { quiet with readable := fun fd => fd == 3 } :: { quiet with readable := fun fd => fd == 5 } :: last

/-- The peer has shut down and takes its echo in the same pass. -/
def endAndRoom : Round where
  readable fd := fd == 5
  writable fd := fd == 5
  accept := .error .eagain
  nonblock := true
  recv _ := .ok []
  send _ := .ok 2

def roomOnly : Round := { endAndRoom with readable := fun _ => false }

/-- The echo is taken first, the end of the stream comes in the next pass. -/
theorem half_close_echoes_whole_one_line :
    let world := (⟨boot 3, Kernel.boot 3⟩ : World).run (oneLine [roomOnly, endAndRoom])
    Reachable (guarded system SentAtEnd) world ∧ .recv (.ok []) ∈ world.kernel.log 0 ∧
      sent (world.kernel.log 0) = complete newline (received (world.kernel.log 0)) := by
  have reached := @World.reachable_guarded_run SentAtEnd _
    (.start ⟨3, by decide, rfl⟩) (oneLine [roomOnly, endAndRoom]) (by decide +kernel)
    (by decide +kernel)
  have ended : .recv (.ok []) ∈ (World.run ⟨boot 3, Kernel.boot 3⟩
      (oneLine [roomOnly, endAndRoom])).kernel.log 0 := by
    decide +kernel
  exact ⟨reached, ended, half_close_echoes_whole reached 0 ended⟩

/-- The end of the stream is read first: the connection is closed with its line unsent. -/
theorem half_close_loses_line :
    ¬∀ world, Reachable system world → ∀ id, .recv (.ok []) ∈ world.kernel.log id →
      sent (world.kernel.log id) = complete newline (received (world.kernel.log id)) := by
  intro whole
  have reached : Reachable system
      ((⟨boot 3, Kernel.boot 3⟩ : World).run (oneLine [endAndRoom])) :=
    World.reachable_run (.start ⟨3, by decide, rfl⟩) _ (by decide +kernel)
  have lost : .recv (.ok []) ∈ (World.run ⟨boot 3, Kernel.boot 3⟩
      (oneLine [endAndRoom])).kernel.log 0 ∧
      sent ((World.run ⟨boot 3, Kernel.boot 3⟩ (oneLine [endAndRoom])).kernel.log 0) ≠
        complete newline (received
          ((World.run ⟨boot 3, Kernel.boot 3⟩ (oneLine [endAndRoom])).kernel.log 0)) := by
    decide +kernel
  exact lost.2 (whole _ reached 0 lost.1)

end LinuxSystemPrograms.SelectServerV2HalfClose
