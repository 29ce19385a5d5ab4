import LinuxSystemPrograms.SelectServerV2

/-!
# The handlers of `tcp_select_server_v2.c` on one connection

A run is any sequence of calls of `handle_recv` and `handle_send` on one record, until one of
them returns `-1` and `main` closes the connection.
-/

namespace LinuxSystemPrograms.SelectServerV2Calls

open LinuxSystemPrograms.ConnectionAccount
open LinuxSystemPrograms.EchoClient
open LinuxSystemPrograms.Framing
open LinuxSystemPrograms.SelectServerV2
open LinuxSystemPrograms.Sockets
open LinuxSystemPrograms.Transition

set_option autoImplicit false

/-- The bytes not sent yet when `handle_recv` has said "Send_buf is full!", the length of the
line that it had no room for, and all the bytes of complete lines that it had then to echo. -/
structure Refusal where
  unsent : Nat
  line : Nat
  backlog : Nat
  deriving DecidableEq, Repr

structure Conn where
  client : Client
  received : List Byte
  returns : List Int
  refusal : Option Refusal
  closed : Bool

inductive Call where
  | recv (ready : RecvResult)
  | send (room : SendResult)

namespace Conn

/-- The bytes that a call of `handle_recv` looks for lines in. -/
def pending (conn : Conn) (ready : RecvResult) : List Byte :=
  conn.client.part ++ chunkOf (recv recvBufSize ready)

def refusalOf (conn : Conn) (ready : RecvResult) : Option Refusal :=
  let (after, exit) := conn.client.receive ready
  if exit = .sendBufFull then
    some
      { unsent := after.sendLen - after.sendOffset
        line := after.messageLength.getD 0
        backlog := conn.client.sendLen - conn.client.sendOffset +
          (complete newline (conn.pending ready)).length }
  else none

def advance (conn : Conn) : Call → Option Conn
  | .recv ready =>
      if conn.closed = true then none
      else
        let (after, code, _) := handleRecv conn.client ready
        some
          { client := after
            received := conn.received ++ chunkOf (recv recvBufSize ready)
            returns := conn.returns ++ [code]
            refusal := conn.refusalOf ready
            closed := decide (code = -1) }
  | .send room =>
      if conn.closed = true then none
      else
        let (after, code, _) := handleSend conn.client room
        some { conn with client := after, closed := decide (code = -1) }

def fresh : Conn := ⟨Client.init, [], [], none, false⟩

end Conn

/-- The slot of a new connection, whatever the one before has left in the arrays. -/
structure Opened (conn : Conn) : Prop where
  client : conn.client.view = LineEcho.empty
  received : conn.received = []
  returns : conn.returns = []
  refusal : conn.refusal = none
  isOpen : conn.closed = false

theorem fresh_opened : Opened Conn.fresh := ⟨Client.init_view, rfl, rfl, rfl, rfl⟩

def system : System Conn Call where
  init := Opened
  step conn call after := conn.advance call = some after

theorem call_advances {conn : Conn} (isOpen : conn.closed = false) (call : Call) :
    ∃ after, conn.advance call = some after := by
  cases call with
  | recv ready =>
      simp only [Conn.advance, isOpen]
      exact ⟨_, rfl⟩
  | send room =>
      simp only [Conn.advance, isOpen]
      exact ⟨_, rfl⟩

theorem advance_open {conn after : Conn} {call : Call} (taken : conn.advance call = some after) :
    conn.closed = false := by
  cases call with
  | recv ready =>
      simp only [Conn.advance] at taken
      split_ifs at taken with closed
      exact Bool.eq_false_of_not_eq_true closed
  | send room =>
      simp only [Conn.advance] at taken
      split_ifs at taken with closed
      exact Bool.eq_false_of_not_eq_true closed

/-- `send_buf` is empty as soon as everything in it has been sent. -/
theorem step_reset {conn after : Conn} {call : Call} (reset : conn.client.view.Reset)
    (taken : conn.advance call = some after) : after.client.view.Reset := by
  cases call with
  | recv ready =>
      simp only [Conn.advance] at taken
      split_ifs at taken
      cases taken
      have view := (recv_handler_spec recvCode conn.client ready).1
      simp only [handleRecv, view]
      exact receive_reset reset _
  | send room =>
      simp only [Conn.advance] at taken
      split_ifs at taken
      cases taken
      have view := (send_handler_spec sendCode conn.client room).1
      simp only [handleSend, view]
      exact flush_reset reset _

end LinuxSystemPrograms.SelectServerV2Calls
