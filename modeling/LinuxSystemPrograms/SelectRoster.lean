import LinuxSystemPrograms.EchoBuffers
import LinuxSystemPrograms.SelectServerV2

/-!
# What a pass of a select server is for

`Roster` is the open connections by descriptor, without slots and without an order: a pass
serves each of them for itself (`serve`) and may add an empty one (`passRoster`). The
servers of the repository keep their connections in tables and scan these in an order of
their own; each refines the roster, so that all they can disagree about is the table.

`Watches` is the part of the select sets: what is watched is a function of the roster.
-/

namespace LinuxSystemPrograms.SelectRoster

open LinuxSystemPrograms.ConnectionAccount
open LinuxSystemPrograms.EchoBuffers
open LinuxSystemPrograms.EchoClient
open LinuxSystemPrograms.SelectServerV2
open LinuxSystemPrograms.Sockets

set_option autoImplicit false

abbrev Roster := Fd → Option Buffers

/-- What is left of a connection, and the calls made on it. -/
abbrev Served := Option Buffers × List Event

def pending (buffers : Buffers) : Bool := decide (buffers.echo.queued ≠ [])

def orClose (code : Int) (after : Buffers) (events : List Event) : Served :=
  if code = -1 then (none, events ++ [.close]) else (some after, events)

def readConn (ready : RecvResult) (buffers : Buffers) : Served :=
  let result := recv recvBufSize ready
  orClose (recvCode (buffers.echo.receive result).2) (buffers.receive result)
    (recvEvents recvCode buffers.echo result)

def writeConn (sendCode : SendExit → Int) (room : SendResult) (buffers : Buffers) : Served :=
  let result := send buffers.echo.queued.length room
  orClose (sendCode (buffers.echo.flush result).2) (buffers.flush result)
    (sendEvents sendCode buffers.echo result)

def serveRead (readable : Bool) (ready : RecvResult) (buffers : Buffers) : Served :=
  if readable then readConn ready buffers else (some buffers, [])

def serveWrite (sendCode : SendExit → Int) (writable : Bool) (room : SendResult)
    (buffers : Buffers) : Served :=
  if writable then writeConn sendCode room buffers else (some buffers, [])

/-- One connection in one pass: it is written only if reading has not closed it. -/
def serveConn (sendCode : SendExit → Int) (readable writable : Bool) (ready : RecvResult)
    (room : SendResult) (buffers : Buffers) : Served :=
  match serveRead readable ready buffers with
  | (none, events) => (none, events)
  | (some middle, events) =>
      ((serveWrite sendCode writable room middle).1,
        events ++ (serveWrite sendCode writable room middle).2)

def serve (sendCode : SendExit → Int) (round : Round) (readfds writefds : FdSet) (fd : Fd)
    (entry : Option Buffers) : Served :=
  match entry with
  | none => (none, [])
  | some buffers =>
      serveConn sendCode (readfds fd) (writefds fd) (round.recv fd) (round.send fd) buffers

/-- The descriptor that a pass takes in; `ready` is whether `server_fd` is reported. -/
def taken (round : Round) (ready : Bool) : Option Fd :=
  if ready then round.accept.toOption else none

def withAccepted (roster : Roster) : Option Fd → Roster
  | none => roster
  | some fd => Function.update roster fd (some Buffers.empty)

theorem with_accepted_apply (roster : Roster) (accepted : Option Fd) (fd : Fd) :
    withAccepted roster accepted fd =
      if accepted = some fd then some Buffers.empty else roster fd := by
  cases accepted with
  | none => rfl
  | some other =>
      by_cases same : other = fd
      · subst same
        rw [if_pos rfl, withAccepted, Function.update_self]
      · rw [if_neg (fun isFd => same (Option.some.inj isFd)), withAccepted,
          Function.update_of_ne (Ne.symm same)]

def passRoster (sendCode : SendExit → Int) (round : Round) (readfds writefds : FdSet)
    (accepted : Option Fd) (roster : Roster) : Roster := fun fd =>
  if accepted = some fd then some Buffers.empty
  else (serve sendCode round readfds writefds fd (roster fd)).1

def callsOn (fd : Fd) (actions : List (Action Return)) : List Event :=
  actions.filterMap fun action =>
    match action with
    | .accept _ => none
    | .io other event => if other = fd then some event else none

def accepts (actions : List (Action Return)) : List Fd :=
  actions.filterMap fun action =>
    match action with
    | .accept fd => some fd
    | .io _ _ => none

@[simp] theorem calls_on_append (fd : Fd) (first second : List (Action Return)) :
    callsOn fd (first ++ second) = callsOn fd first ++ callsOn fd second :=
  List.filterMap_append

@[simp] theorem accepts_append (first second : List (Action Return)) :
    accepts (first ++ second) = accepts first ++ accepts second :=
  List.filterMap_append

theorem calls_on_same (fd : Fd) (events : List Event) : callsOn fd (events.map (.io fd)) = events := by
  induction events with
  | nil => rfl
  | cons event rest ih =>
      rw [List.map_cons, callsOn, List.filterMap_cons]
      simp only [if_true]
      exact congrArg (List.cons event) ih

theorem calls_on_other {fd other : Fd} (different : other ≠ fd) (events : List Event) :
    callsOn fd (events.map (.io other)) = [] := by
  induction events with
  | nil => rfl
  | cons event rest ih =>
      rw [List.map_cons, callsOn, List.filterMap_cons]
      simp only [if_neg different]
      exact ih

theorem accepts_io (fd : Fd) (events : List Event) : accepts (events.map (.io fd)) = [] := by
  induction events with
  | nil => rfl
  | cons event rest ih =>
      rw [List.map_cons, accepts, List.filterMap_cons]
      exact ih

theorem calls_on_accept (fd : Fd) (fds : List Fd) : callsOn fd (fds.map .accept) = [] := by
  induction fds with
  | nil => rfl
  | cons other rest ih => exact ih

theorem accepts_accept (fds : List Fd) : accepts (fds.map .accept) = fds := by
  induction fds with
  | nil => rfl
  | cons fd rest ih => exact congrArg (List.cons fd) ih

theorem serve_none (sendCode : SendExit → Int) (round : Round) (readfds writefds : FdSet)
    (fd : Fd) : serve sendCode round readfds writefds fd none = (none, []) := rfl

section Turns

variable {sendCode : SendExit → Int} {round : Round} {readfds writefds : FdSet} {fd : Fd}
  {buffers middle : Buffers} {events : List Event}

theorem serve_closed
    (reading : serveRead (readfds fd) (round.recv fd) buffers = (none, events)) :
    serve sendCode round readfds writefds fd (some buffers) = (none, events) := by
  rw [serve, serveConn, reading]

theorem serve_open
    (reading : serveRead (readfds fd) (round.recv fd) buffers = (some middle, events)) :
    serve sendCode round readfds writefds fd (some buffers) =
      ((serveWrite sendCode (writefds fd) (round.send fd) middle).1,
        events ++ (serveWrite sendCode (writefds fd) (round.send fd) middle).2) := by
  rw [serve, serveConn, reading]

end Turns

/-- A descriptor that is in no set is left alone. -/
theorem serve_unready {sendCode : SendExit → Int} {round : Round} {readfds writefds : FdSet}
    {fd : Fd} (noRead : readfds fd = false) (noWrite : writefds fd = false)
    (entry : Option Buffers) :
    serve sendCode round readfds writefds fd entry = (entry, []) := by
  cases entry with
  | none => rfl
  | some buffers => simp [serve, serveConn, serveRead, serveWrite, noRead, noWrite]

theorem receive_pending {buffers : Buffers} (some : pending buffers = true)
    (result : RecvResult) : pending (buffers.receive result) = true := by
  simp only [pending, decide_eq_true_eq] at some ⊢
  rcases receive_cases buffers.echo result with ⟨_, _, after, _⟩ | ⟨_, _, after, _⟩ | ⟨_, after, _⟩
  · rw [Buffers.receive, after]
    intro none
    exact some (List.append_eq_nil_iff.mp none).1
  · rwa [Buffers.receive, after]
  · rwa [Buffers.receive, after]

theorem pending_of_flush {buffers : Buffers} {result : SendResult}
    (some : pending (buffers.flush result) = true) : pending buffers = true := by
  simp only [pending, decide_eq_true_eq] at some ⊢
  intro none
  rcases flush_cases buffers.echo result with ⟨_, notNone, _⟩ | ⟨_, same⟩
  · exact notNone none
  · exact some (same.mpr none)

/-- Nothing is called on a connection that has been closed. -/
def Orderly (served : Served) : Prop :=
  CloseLast served.2 ∧ (served.1.isSome = true → ConnEvent.close ∉ served.2)

theorem orderly_untouched (entry : Option Buffers) : Orderly (entry, []) :=
  ⟨close_last_nil, fun _ => List.not_mem_nil⟩

theorem orderly_or_close {events : List Event} (noClose : ConnEvent.close ∉ events) (code : Int)
    (after : Buffers) : Orderly (orClose code after events) := by
  unfold orClose
  by_cases failed : code = -1
  · rw [if_pos failed]
    exact ⟨⟨events, noClose, Or.inr rfl⟩, fun isSome => Bool.noConfusion isSome⟩
  · rw [if_neg failed]
    exact ⟨⟨events, noClose, Or.inl rfl⟩, fun _ => noClose⟩

theorem orderly_read (readable : Bool) (ready : RecvResult) (buffers : Buffers) :
    Orderly (serveRead readable ready buffers) := by
  cases readable with
  | false => exact orderly_untouched (some buffers)
  | true => exact orderly_or_close (recv_events_no_close _ _ _) _ _

theorem orderly_write (sendCode : SendExit → Int) (writable : Bool) (room : SendResult)
    (buffers : Buffers) : Orderly (serveWrite sendCode writable room buffers) := by
  cases writable with
  | false => exact orderly_untouched (some buffers)
  | true => exact orderly_or_close (send_events_no_close _ _ _) _ _

theorem orderly_serve (sendCode : SendExit → Int) (round : Round) (readfds writefds : FdSet)
    (fd : Fd) (entry : Option Buffers) :
    Orderly (serve sendCode round readfds writefds fd entry) := by
  cases entry with
  | none => exact orderly_untouched none
  | some buffers =>
      have reading := orderly_read (readfds fd) (round.recv fd) buffers
      cases servedEq : serveRead (readfds fd) (round.recv fd) buffers with
      | mk left events =>
          rw [servedEq] at reading
          cases left with
          | none =>
              rw [serve_closed servedEq]
              exact ⟨reading.1, fun isSome => Bool.noConfusion isSome⟩
          | some middle =>
              have noClose := reading.2 rfl
              have writing := orderly_write sendCode (writefds fd) (round.send fd) middle
              rw [serve_open servedEq]
              constructor
              · exact close_last_append noClose writing.1
              · intro isSome member
                rcases List.mem_append.mp member with early | late
                · exact noClose early
                · exact writing.2 isSome late

/-- What `select` has reported when the handler that logs `event` is called. -/
def Reported (readfds writefds : FdSet) (fd : Fd) : Event → Prop
  | .recv _ | .note (.ofRecv _ _) => readfds fd = true
  | .send _ _ | .note (.ofSend _ _) => writefds fd = true
  | .note (.ofEvent _ _) => False
  | .close => readfds fd = true ∨ writefds fd = true

section Reports

variable {readfds writefds : FdSet} {fd : Fd}

theorem reported_or_close {events : List Event}
    (reported : ∀ event ∈ events, Reported readfds writefds fd event)
    (either : readfds fd = true ∨ writefds fd = true) (code : Int) (after : Buffers) :
    ∀ event ∈ (orClose code after events).2, Reported readfds writefds fd event := by
  intro event member
  unfold orClose at member
  by_cases failed : code = -1
  · rw [if_pos failed] at member
    rcases List.mem_append.mp member with handler | last
    · exact reported event handler
    · rw [List.mem_singleton.mp last]
      exact either
  · rw [if_neg failed] at member
    exact reported event member

theorem reported_read (ready : RecvResult) (buffers : Buffers) :
    ∀ event ∈ (serveRead (readfds fd) ready buffers).2, Reported readfds writefds fd event := by
  cases readable : readfds fd with
  | false => simp [serveRead]
  | true =>
      apply reported_or_close _ (Or.inl readable)
      intro event member
      simp only [recvEvents, List.mem_cons, List.not_mem_nil, or_false] at member
      rcases member with rfl | rfl <;> exact readable

theorem reported_write (sendCode : SendExit → Int) (room : SendResult) (buffers : Buffers) :
    ∀ event ∈ (serveWrite sendCode (writefds fd) room buffers).2,
      Reported readfds writefds fd event := by
  cases writable : writefds fd with
  | false => simp [serveWrite]
  | true =>
      apply reported_or_close _ (Or.inr writable)
      intro event member
      rcases List.mem_append.mp member with call | last
      · by_cases idle : buffers.echo.queued = []
        · simp [idle] at call
        · rw [if_neg idle, List.mem_singleton] at call
          rw [call]
          exact writable
      · rw [List.mem_singleton.mp last]
        exact writable

theorem reported_serve (sendCode : SendExit → Int) (round : Round) (entry : Option Buffers) :
    ∀ event ∈ (serve sendCode round readfds writefds fd entry).2,
      Reported readfds writefds fd event := by
  cases entry with
  | none => simp [serve]
  | some buffers =>
      have reading : ∀ event ∈ (serveRead (readfds fd) (round.recv fd) buffers).2,
          Reported readfds writefds fd event := reported_read (round.recv fd) buffers
      cases servedEq : serveRead (readfds fd) (round.recv fd) buffers with
      | mk left events =>
          rw [servedEq] at reading
          cases left with
          | none =>
              rw [serve_closed servedEq]
              exact reading
          | some middle =>
              intro event member
              rw [serve_open servedEq] at member
              rcases List.mem_append.mp member with early | late
              · exact reading event early
              · exact reported_write sendCode (round.send fd) middle event late

end Reports

/-! ## The handlers of the servers

What a server's own record does under `handle_recv` and `handle_send`, as one connection of
the roster. -/

section Handlers

variable {client : Client} {ready : RecvResult} {room : SendResult}

theorem read_conn_failed
    (failed : recvCode (client.view.receive (recv recvBufSize ready)).2 = -1) :
    serveRead true ready (contents client) =
      (none, recvEvents recvCode client.view (recv recvBufSize ready) ++ [.close]) :=
  if_pos failed

theorem read_conn_kept
    (success : recvCode (client.view.receive (recv recvBufSize ready)).2 ≠ -1) :
    serveRead true ready (contents client) =
      (some (contents (client.receive ready).1),
        recvEvents recvCode client.view (recv recvBufSize ready)) := by
  rw [receive_contents]
  exact if_neg success

theorem write_conn_failed {sendCode : SendExit → Int}
    (failed : sendCode (client.view.flush (send client.queued.length room)).2 = -1) :
    serveWrite sendCode true room (contents client) =
      (none, sendEvents sendCode client.view (send client.queued.length room) ++ [.close]) :=
  if_pos failed

theorem write_conn_kept {sendCode : SendExit → Int}
    (success : sendCode (client.view.flush (send client.queued.length room)).2 ≠ -1) :
    serveWrite sendCode true room (contents client) =
      (some (contents (client.flush room).1),
        sendEvents sendCode client.view (send client.queued.length room)) := by
  rw [flush_contents]
  exact if_neg success

theorem pending_contents (client : Client) :
    pending (contents client) = true ↔ client.queued ≠ [] :=
  decide_eq_true_iff

variable {writefds : FdSet} {fd : Fd}

/-- The handlers touch no other connection's bit. -/
theorem write_bit_others {changed : Prop} [Decidable changed] (bit : Bool) {other : Fd}
    (different : other ≠ fd) :
    (if changed then Function.update writefds fd bit else writefds) other = writefds other := by
  split_ifs
  · exact Function.update_of_ne different _ _
  · rfl

/-- `handle_recv` only adds to the queue, so setting the bit is enough. -/
theorem write_bit_receive (before : writefds fd = pending (contents client)) :
    (if (client.view.receive (recv recvBufSize ready)).1.queued ≠ [] then fdSet writefds fd
      else writefds) fd = pending (contents (client.receive ready).1) := by
  have contentsEq := receive_contents client ready
  by_cases some : (client.view.receive (recv recvBufSize ready)).1.queued ≠ []
  · rw [if_pos some, contentsEq]
    have set : fdSet writefds fd fd = true := Function.update_self _ _ _
    rw [set]
    exact (decide_eq_true some).symm
  · have noneAfter : pending (contents (client.receive ready).1) ≠ true := by
      rw [contentsEq]
      exact fun isPending => some (of_decide_eq_true isPending)
    have noneBefore : pending (contents client) ≠ true := fun isPending =>
      noneAfter (by rw [contentsEq]; exact receive_pending isPending _)
    rw [if_neg some, before, Bool.eq_false_iff.mpr noneAfter, Bool.eq_false_iff.mpr noneBefore]

/-- `handle_send` only takes from the queue, so clearing the bit is enough. -/
theorem write_bit_flush (before : writefds fd = pending (contents client)) :
    (if (client.view.flush (send client.queued.length room)).1.queued = [] then fdClr writefds fd
      else writefds) fd = pending (contents (client.flush room).1) := by
  have contentsEq := flush_contents client room
  by_cases none : (client.view.flush (send client.queued.length room)).1.queued = []
  · rw [if_pos none, contentsEq]
    have cleared : fdClr writefds fd fd = false := Function.update_self _ _ _
    rw [cleared]
    exact (decide_eq_false (not_not.mpr none)).symm
  · have someAfter : pending (contents (client.flush room).1) = true := by
      rw [contentsEq]
      exact decide_eq_true none
    have someBefore : pending (contents client) = true := by
      rw [contentsEq] at someAfter
      exact pending_of_flush someAfter
    rw [if_neg none, before, someAfter, someBefore]

end Handlers

/-! ## One descriptor after the other -/

def sweep (turn : Fd → Option Buffers → Served) :
    List Fd → Roster → Roster × List (Action Return)
  | [], roster => (roster, [])
  | fd :: rest, roster =>
      let (entry, events) := turn fd (roster fd)
      let (swept, later) := sweep turn rest (Function.update roster fd entry)
      (swept, events.map (.io fd) ++ later)

section Sweep

variable {turn : Fd → Option Buffers → Served}

/-- No descriptor is touched by another one's turn. -/
theorem sweep_roster {fds : List Fd} (nodup : fds.Nodup) (roster : Roster) (fd : Fd) :
    (sweep turn fds roster).1 fd = if fd ∈ fds then (turn fd (roster fd)).1 else roster fd := by
  induction fds generalizing roster with
  | nil => rfl
  | cons head rest ih =>
      obtain ⟨notLater, restNodup⟩ := List.nodup_cons.mp nodup
      rw [sweep, ih restNodup]
      by_cases same : fd = head
      · subst same
        rw [if_neg notLater, if_pos List.mem_cons_self, Function.update_self]
      · rw [Function.update_of_ne same]
        simp only [List.mem_cons, same, false_or]

theorem sweep_calls {fds : List Fd} (nodup : fds.Nodup) (roster : Roster) (fd : Fd) :
    callsOn fd (sweep turn fds roster).2 = if fd ∈ fds then (turn fd (roster fd)).2 else [] := by
  induction fds generalizing roster with
  | nil => rfl
  | cons head rest ih =>
      obtain ⟨notLater, restNodup⟩ := List.nodup_cons.mp nodup
      rw [sweep, calls_on_append, ih restNodup]
      by_cases same : fd = head
      · subst same
        rw [calls_on_same, if_neg notLater, if_pos List.mem_cons_self, List.append_nil]
      · rw [calls_on_other (Ne.symm same), Function.update_of_ne same]
        simp only [List.mem_cons, same, false_or, List.nil_append]

theorem sweep_accepts (fds : List Fd) (roster : Roster) :
    accepts (sweep turn fds roster).2 = [] := by
  induction fds generalizing roster with
  | nil => rfl
  | cons head rest ih => rw [sweep, accepts_append, accepts_io, ih, List.append_nil]

/-- Each descriptor still names what it named when the sweep began. -/
theorem sweep_along (orderly : ∀ fd entry, Orderly (turn fd entry)) {fds : List Fd}
    (nodup : fds.Nodup) (roster : Roster) {start kernel : Kernel Return}
    (untouched : ∀ fd ∈ fds, kernel.file fd = start.file fd) :
    kernel.Along (fun now action => ∃ fd ∈ fds, ∃ entry, ∃ event ∈ (turn fd entry).2,
      action = .io fd event ∧ now.file fd = start.file fd) (sweep turn fds roster).2 := by
  induction fds generalizing roster kernel with
  | nil => trivial
  | cons head rest ih =>
      obtain ⟨notLater, restNodup⟩ := List.nodup_cons.mp nodup
      rw [sweep, Kernel.along_append]
      constructor
      · apply Kernel.along_mono _ (Kernel.along_io (orderly head (roster head)).1)
        rintro now action ⟨event, member, same, file⟩
        exact ⟨head, List.mem_cons_self, roster head, event, member, same,
          file.trans (untouched head List.mem_cons_self)⟩
      · have stillUntouched : ∀ fd ∈ rest,
            (kernel.exec ((turn head (roster head)).2.map (.io head))).file fd =
              start.file fd := by
          intro fd member
          have different : fd ≠ head := by
            rintro rfl
            exact notLater member
          rw [Kernel.exec_io_file_other kernel _ different]
          exact untouched fd (List.mem_cons_of_mem head member)
        apply Kernel.along_mono _ (ih restNodup _ stillUntouched)
        rintro now action ⟨fd, member, rest⟩
        exact ⟨fd, List.mem_cons_of_mem head member, rest⟩

end Sweep

theorem admits_of_no_accept {actions : List (Action Return)} (none : accepts actions = [])
    (kernel : Kernel Return) : kernel.Admits actions := by
  induction actions generalizing kernel with
  | nil => trivial
  | cons action rest ih =>
      cases action with
      | accept fd => cases none
      | io fd event => exact ih none (kernel.step (.io fd event))

/-! ## The log of a connection over a list of calls -/

section Calls

variable {kernel : Kernel Return} {actions : List (Action Return)}

theorem exec_accepted (none : accepts actions = []) (kernel : Kernel Return) :
    (kernel.exec actions).accepted = kernel.accepted := by
  induction actions generalizing kernel with
  | nil => rfl
  | cons action rest ih =>
      cases action with
      | accept fd => cases none
      | io fd event =>
          rw [Kernel.exec_cons, ih none]
          cases owner : kernel.file fd with
          | conn id => cases event <;> simp [Kernel.step, owner]
          | closed => simp [Kernel.step, owner]
          | listener => simp [Kernel.step, owner]

/-- Without an `accept` a connection that has no descriptor gets none, and no call reaches
its log. -/
theorem exec_shut (none : accepts actions = []) {id : Nat}
    (shut : ∀ fd, kernel.file fd ≠ .conn id) :
    (kernel.exec actions).log id = kernel.log id ∧
      ∀ fd, (kernel.exec actions).file fd ≠ .conn id := by
  induction actions generalizing kernel with
  | nil => exact ⟨rfl, shut⟩
  | cons action rest ih =>
      cases action with
      | accept fd => cases none
      | io fd event =>
          have stillShut : ∀ other, (kernel.step (.io fd event)).file other ≠ .conn id :=
            fun other named => shut other (Kernel.named_of_step_io named)
          have later := ih none stillShut
          rw [Kernel.step_io_log_other (shut fd) event] at later
          exact later

theorem named_of_exec (none : accepts actions = []) {fd : Fd} {id : Nat}
    (named : (kernel.exec actions).file fd = .conn id) : kernel.file fd = .conn id := by
  induction actions generalizing kernel with
  | nil => exact named
  | cons action rest ih =>
      cases action with
      | accept other => cases none
      | io other event => exact Kernel.named_of_step_io (ih none named)

theorem exec_closed (none : accepts actions = []) {fd : Fd} (closed : kernel.file fd = .closed) :
    (kernel.exec actions).file fd = .closed := by
  induction actions generalizing kernel with
  | nil => exact closed
  | cons action rest ih =>
      cases action with
      | accept other => cases none
      | io other event =>
          apply ih none
          by_cases same : fd = other
          · subst same
            simp [Kernel.step, closed]
          · rw [Kernel.step_io_file_other kernel event same, closed]

theorem calls_on_cons_same (fd : Fd) (event : Event) (rest : List (Action Return)) :
    callsOn fd (.io fd event :: rest) = event :: callsOn fd rest := by
  simp [callsOn]

theorem calls_on_cons_other {fd other : Fd} (different : other ≠ fd) (event : Event)
    (rest : List (Action Return)) : callsOn fd (.io other event :: rest) = callsOn fd rest := by
  simp [callsOn, different]

/-- The calls on an open descriptor go to the log of its connection. -/
theorem exec_calls {fd : Fd} {id : Nat} (owner : kernel.file fd = .conn id)
    (single : ∀ other, kernel.file other = .conn id → other = fd)
    (none : accepts actions = []) (closeLast : CloseLast (callsOn fd actions)) :
    (kernel.exec actions).log id = kernel.log id ++ callsOn fd actions ∧
      (kernel.exec actions).file fd =
        (if ConnEvent.close ∈ callsOn fd actions then .closed else .conn id) := by
  induction actions generalizing kernel with
  | nil => exact ⟨(List.append_nil _).symm, owner⟩
  | cons action rest ih =>
      cases action with
      | accept other => cases none
      | io other event =>
          have noneLater : accepts rest = [] := none
          have stillSingle : ∀ candidate, (kernel.step (.io other event)).file candidate =
              .conn id → candidate = fd :=
            fun candidate named => single candidate (Kernel.named_of_step_io named)
          by_cases same : other = fd
          · subst same
            rw [calls_on_cons_same] at closeLast ⊢
            obtain ⟨tail, last⟩ := close_last_tail closeLast
            by_cases isClose : event = .close
            · subst isClose
              rw [Kernel.step_close owner] at stillSingle
              have shut : ∀ candidate,
                  ((kernel.record id [.close]).release other).file candidate ≠ .conn id := by
                intro candidate named
                rw [stillSingle candidate named, Kernel.release_file_same] at named
                cases named
              rw [Kernel.exec_cons, Kernel.step_close owner, (exec_shut noneLater shut).1,
                exec_closed noneLater (Kernel.release_file_same _ _), last rfl,
                if_pos List.mem_cons_self]
              exact ⟨Kernel.record_log_same kernel id [.close], rfl⟩
            · rw [Kernel.step_open owner isClose] at stillSingle
              obtain ⟨log, file⟩ := @ih (kernel.record id [event]) owner stillSingle noneLater tail
              rw [Kernel.exec_cons, Kernel.step_open owner isClose, log, file,
                Kernel.record_log_same, List.append_assoc]
              constructor
              · rfl
              · simp only [List.mem_cons, Ne.symm isClose, false_or]
          · rw [calls_on_cons_other same] at closeLast ⊢
            have stepOwner : (kernel.step (.io other event)).file fd = .conn id := by
              rw [Kernel.step_io_file_other kernel event (Ne.symm same), owner]
            have notNamed : kernel.file other ≠ .conn id := fun named => same (single other named)
            obtain ⟨log, file⟩ := ih stepOwner stillSingle noneLater closeLast
            rw [Kernel.exec_cons, log, file, Kernel.step_io_log_other notNamed]
            exact ⟨rfl, rfl⟩

end Calls

/-- A sweep over everything that is open, the accepted connection included, is a pass: the
accepted connection cannot have been reported. -/
theorem sweep_pass {sendCode : SendExit → Int} {round : Round} {readfds writefds : FdSet}
    {fds : List Fd} {roster : Roster} {accepted : Option Fd} (nodup : fds.Nodup)
    (members : ∀ fd, fd ∈ fds ↔ (withAccepted roster accepted fd).isSome = true)
    (fresh : ∀ fd, accepted = some fd →
      roster fd = none ∧ readfds fd = false ∧ writefds fd = false) :
    (sweep (serve sendCode round readfds writefds) fds (withAccepted roster accepted)).1 =
        passRoster sendCode round readfds writefds accepted roster ∧
      ∀ fd, callsOn fd (sweep (serve sendCode round readfds writefds) fds
          (withAccepted roster accepted)).2 =
        (serve sendCode round readfds writefds fd (roster fd)).2 := by
  have turn : ∀ fd, serve sendCode round readfds writefds fd (withAccepted roster accepted fd) =
      if accepted = some fd then (some Buffers.empty, [])
      else serve sendCode round readfds writefds fd (roster fd) := by
    intro fd
    rw [with_accepted_apply]
    by_cases same : accepted = some fd
    · rw [if_pos same, if_pos same]
      exact serve_unready (fresh fd same).2.1 (fresh fd same).2.2 _
    · rw [if_neg same, if_neg same]
  have absent : ∀ fd, fd ∉ fds → withAccepted roster accepted fd = none := by
    intro fd notMember
    rw [← Option.not_isSome_iff_eq_none, ← members fd]
    exact notMember
  constructor
  · funext fd
    rw [sweep_roster nodup, passRoster]
    by_cases member : fd ∈ fds
    · rw [if_pos member, turn]
      split_ifs <;> rfl
    · have served := congrArg Prod.fst (turn fd)
      rw [absent fd member, serve_none] at served
      rw [if_neg member, absent fd member]
      exact served.trans (apply_ite Prod.fst _ _ _)
  · intro fd
    have entry : accepted = some fd →
        (serve sendCode round readfds writefds fd (roster fd)).2 = [] := by
      intro same
      rw [(fresh fd same).1, serve_none]
    rw [sweep_calls nodup]
    by_cases member : fd ∈ fds
    · rw [if_pos member, turn]
      split_ifs with same
      · exact (entry same).symm
      · rfl
    · have served := turn fd
      rw [absent fd member, serve_none] at served
      rw [if_neg member]
      split_ifs at served with same
      · exact (entry same).symm
      · exact congrArg Prod.snd served

/-! ## Two ways to read a `send` that returns 0 -/

theorem flush_not_send_zero {echo : LineEcho} {room : SendResult} (positive : room ≠ .ok 0) :
    (echo.flush (send echo.queued.length room)).2 ≠ .sendZero := by
  by_cases empty : echo.queued = []
  · simp [LineEcho.flush, empty]
  · cases room with
    | error reason => cases reason <;> simp [LineEcho.flush, empty, send, Except.map]
    | ok free =>
        have some : min free echo.queued.length ≠ 0 := by
          have notZero : free ≠ 0 := fun zero => positive (by rw [zero])
          have length := List.length_pos_iff.mpr empty
          omega
        obtain ⟨count, same⟩ := Nat.exists_eq_succ_of_ne_zero some
        have result : send echo.queued.length (.ok free) = .ok (count + 1) := congrArg Except.ok same
        rw [result]
        simp only [LineEcho.flush, if_neg empty]
        split_ifs <;> simp

/-- The servers disagree only about a `send` that returns 0. -/
theorem serve_code_congr {first second : SendExit → Int}
    (agree : ∀ exit, exit ≠ .sendZero → first exit = second exit) {round : Round}
    (positive : ∀ fd, round.send fd ≠ .ok 0) (readfds writefds : FdSet) :
    serve first round readfds writefds = serve second round readfds writefds := by
  have writing : ∀ fd buffers, serveWrite first (writefds fd) (round.send fd) buffers =
      serveWrite second (writefds fd) (round.send fd) buffers := by
    intro fd buffers
    have code := agree _ (@flush_not_send_zero buffers.echo _ (positive fd))
    simp only [serveWrite, writeConn, sendEvents, code]
  funext fd entry
  cases entry with
  | none => rfl
  | some buffers => simp only [serve, serveConn, writing]

/-! ## The sets of descriptors that are watched -/

/-- The master sets and the bound of the loop are right for `roster`. -/
structure Watches (serverFd maxFd : Fd) (masterRead masterWrite : FdSet) (roster : Roster) :
    Prop where
  read : ∀ fd, masterRead fd = (decide (fd = serverFd) || (roster fd).isSome)
  write : ∀ fd, masterWrite fd = (roster fd).any pending
  listener : roster serverFd = none
  bound : serverFd ≤ maxFd ∧ ∀ fd, (roster fd).isSome = true → fd ≤ maxFd

theorem watches_listener (serverFd : Fd) :
    Watches serverFd serverFd (fdSet fdZero serverFd) fdZero fun _ => none where
  read fd := by
    by_cases same : fd = serverFd
    · simp [fdSet, same]
    · simp [fdSet, fdZero, same]
  write fd := rfl
  listener := rfl
  bound := by
    constructor
    · exact le_refl serverFd
    · intro fd isSome
      exact Bool.noConfusion isSome

section Watching

variable {serverFd maxFd fd : Fd} {masterRead masterWrite : FdSet} {roster : Roster}

theorem watches_ne_server (watches : Watches serverFd maxFd masterRead masterWrite roster)
    (isSome : (roster fd).isSome = true) : fd ≠ serverFd := by
  rintro rfl
  rw [watches.listener] at isSome
  exact Bool.noConfusion isSome

/-- The write bit of an open connection. -/
theorem watches_write_bit (watches : Watches serverFd maxFd masterRead masterWrite roster)
    {buffers : Buffers} (entry : roster fd = some buffers) : masterWrite fd = pending buffers := by
  rw [watches.write, entry]
  rfl

/-- Whatever happens to one connection, it is enough that its own bits are right after it. -/
theorem watches_update {readAfter writeAfter : FdSet}
    (watches : Watches serverFd maxFd masterRead masterWrite roster)
    (isSome : (roster fd).isSome = true) {entry : Option Buffers}
    (readOthers : ∀ other, other ≠ fd → readAfter other = masterRead other)
    (writeOthers : ∀ other, other ≠ fd → writeAfter other = masterWrite other)
    (readSame : readAfter fd = entry.isSome) (writeSame : writeAfter fd = entry.any pending) :
    Watches serverFd maxFd readAfter writeAfter (Function.update roster fd entry) where
  read other := by
    by_cases same : other = fd
    · subst same
      simp [readSame, watches_ne_server watches isSome]
    · rw [readOthers other same, Function.update_of_ne same]
      exact watches.read other
  write other := by
    by_cases same : other = fd
    · subst same
      rw [writeSame, Function.update_self]
    · rw [writeOthers other same, Function.update_of_ne same]
      exact watches.write other
  listener := by
    rw [Function.update_of_ne (Ne.symm (watches_ne_server watches isSome))]
    exact watches.listener
  bound := by
    constructor
    · exact watches.bound.1
    · intro other present
      by_cases same : other = fd
      · rw [same]
        exact watches.bound.2 fd isSome
      · rw [Function.update_of_ne same] at present
        exact watches.bound.2 other present

theorem watches_closed (watches : Watches serverFd maxFd masterRead masterWrite roster)
    (isSome : (roster fd).isSome = true) :
    Watches serverFd maxFd (fdClr masterRead fd) (fdClr masterWrite fd)
      (Function.update roster fd none) := by
  apply watches_update watches isSome
  · exact fun other different => Function.update_of_ne different _ _
  · exact fun other different => Function.update_of_ne different _ _
  · exact Function.update_self _ _ _
  · exact Function.update_self _ _ _

theorem watches_kept (watches : Watches serverFd maxFd masterRead masterWrite roster)
    (isSome : (roster fd).isSome = true) {buffers : Buffers} {writeAfter : FdSet}
    (writeOthers : ∀ other, other ≠ fd → writeAfter other = masterWrite other)
    (writeSame : writeAfter fd = pending buffers) :
    Watches serverFd maxFd masterRead writeAfter (Function.update roster fd (some buffers)) := by
  apply watches_update watches isSome
  · exact fun _ _ => rfl
  · exact writeOthers
  · rw [watches.read, isSome]
    exact Bool.or_true _
  · exact writeSame

theorem watches_opened (watches : Watches serverFd maxFd masterRead masterWrite roster)
    (notServer : fd ≠ serverFd) (unused : roster fd = none) :
    Watches serverFd (max maxFd fd) (fdSet masterRead fd) masterWrite
      (Function.update roster fd (some Buffers.empty)) where
  read other := by
    by_cases same : other = fd
    · subst same
      simp [fdSet]
    · rw [fdSet, Function.update_of_ne same, Function.update_of_ne same]
      exact watches.read other
  write other := by
    by_cases same : other = fd
    · subst same
      rw [watches.write, unused, Function.update_self]
      rfl
    · rw [Function.update_of_ne same]
      exact watches.write other
  listener := by
    rw [Function.update_of_ne (Ne.symm notServer)]
    exact watches.listener
  bound := by
    constructor
    · exact le_trans watches.bound.1 (le_max_left _ _)
    · intro other isSome
      by_cases same : other = fd
      · rw [same]
        exact le_max_right _ _
      · rw [Function.update_of_ne same] at isSome
        exact le_trans (watches.bound.2 other isSome) (le_max_left _ _)

end Watching

end LinuxSystemPrograms.SelectRoster
