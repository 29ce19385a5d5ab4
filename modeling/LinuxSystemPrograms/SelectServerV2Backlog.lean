import LinuxSystemPrograms.SelectServerV2Calls

/-!
# When `send_buf` is full

`send_len` counts from the last complete flush, and the bytes in front of `send_offset` keep
their room until the next one. A line is refused for want of that room: `NoGap` says when
the bytes still to be sent would be too many as well.
-/

namespace LinuxSystemPrograms.SelectServerV2Backlog

open LinuxSystemPrograms.ConnectionAccount
open LinuxSystemPrograms.EchoClient
open LinuxSystemPrograms.Framing
open LinuxSystemPrograms.SelectServerV2
open LinuxSystemPrograms.SelectServerV2Calls
open LinuxSystemPrograms.Sockets
open LinuxSystemPrograms.Transition

set_option autoImplicit false

/-- The line does not fit behind the unsent bytes, and the peer has let more than a `send_buf`
pile up. -/
def Refusal.Right (refusal : Refusal) : Prop :=
  sendBufSize < refusal.unsent + refusal.line ∧ sendBufSize < refusal.backlog

/-- The chunk gets into `recv_message`. -/
def TakenIn (conn : Conn) (ready : RecvResult) : Prop :=
  chunkOf (recv recvBufSize ready) ≠ [] ∧ (conn.pending ready).length ≤ messageSize

/-- No complete lines at the front of `recv_message` have a length for which there is room
behind the unsent bytes, but not behind `send_len`. -/
def NoGap (conn : Conn) : Call → Prop
  | .recv ready =>
      TakenIn conn ready → ∀ length ≤ (conn.pending ready).length,
        Framed newline ((conn.pending ready).take length) →
          sendBufSize < conn.client.sendLen - conn.client.sendOffset + length ∨
            conn.client.sendLen + length ≤ sendBufSize
  | .send _ => True

instance (conn : Conn) (ready : RecvResult) : Decidable (TakenIn conn ready) :=
  inferInstanceAs (Decidable (_ ∧ _))

instance (conn : Conn) : (call : Call) → Decidable (NoGap conn call)
  | .recv _ => inferInstanceAs (Decidable (_ → ∀ length ≤ _, _))
  | .send _ => inferInstanceAs (Decidable True)

/-- `handle_recv` has refused a line although there was room for it. -/
def Hasty (conn : Conn) : Prop := ∃ refusal ∈ conn.refusal, ¬ Refusal.Right refusal

/-- A line that would still fit has a length in the gap. -/
theorem gap_iff {conn : Conn} {ready : RecvResult} (takenIn : TakenIn conn ready) :
    ¬ NoGap conn (.recv ready) ↔
      ∃ frames, Framed newline frames ∧ frames <+: conn.pending ready ∧
        sendBufSize - conn.client.sendLen < frames.length ∧
        frames.length ≤ sendBufSize - (conn.client.sendLen - conn.client.sendOffset) := by
  have bound := conn.client.lenBound
  have ordered := conn.client.offsetBound
  simp only [NoGap, takenIn, true_imp_iff]
  constructor
  · intro gap
    simp only [not_forall, not_or, Nat.not_lt, Nat.not_le] at gap
    obtain ⟨length, inside, framed, fits, tooLong⟩ := gap
    have exact : ((conn.pending ready).take length).length = length := by
      rw [List.length_take, Nat.min_eq_left inside]
    refine ⟨_, framed, List.take_prefix _ _, ?_, ?_⟩
    · rw [exact]
      omega
    · rw [exact]
      omega
  · rintro ⟨frames, framed, isPrefix, tooLong, fits⟩ noGap
    have front : (conn.pending ready).take frames.length = frames :=
      (List.prefix_iff_eq_take.mp isPrefix).symm
    have outcome := noGap frames.length isPrefix.length_le (by
      rw [front]
      exact framed)
    omega

/-- As long as `send_buf` is sent in one go there is no gap. -/
theorem no_gap_of_offset {conn : Conn} (whole : conn.client.sendOffset = 0) (call : Call) :
    NoGap conn call := by
  cases call with
  | recv ready =>
      intro _ length _ _
      rw [whole, Nat.sub_zero]
      exact Nat.lt_or_ge _ _
  | send room => trivial

/-! ## One call -/

section Receive

variable {conn : Conn} {ready : RecvResult}

/-- The loop stops at the first line of `recv_message` that does not fit behind `send_len`. -/
theorem refusal_of_taken_in (takenIn : TakenIn conn ready) :
    conn.refusalOf ready =
      if newline ∈ (drain newline (sendBufSize - conn.client.sendLen) (conn.pending ready)).2 then
        some
          { unsent := conn.client.sendLen - conn.client.sendOffset +
              (drain newline (sendBufSize - conn.client.sendLen) (conn.pending ready)).1.length
            line := (frameLength newline
              (drain newline (sendBufSize - conn.client.sendLen) (conn.pending ready)).2).getD 0
            backlog := conn.client.sendLen - conn.client.sendOffset +
              (complete newline (conn.pending ready)).length }
      else none := by
  obtain ⟨view, exit, _⟩ := Client.receive_view conn.client ready
  have fits : conn.client.view.part.length +
      (chunkOf (recv recvBufSize ready)).length ≤ messageSize := by
    have bound := takenIn.2
    rw [Conn.pending, List.length_append] at bound
    exact bound
  rcases receive_cases conn.client.view (recv recvBufSize ready) with
    ⟨_, _, after, ended⟩ | ⟨_, tooLong, _⟩ | ⟨empty, _⟩
  · rw [after] at view
    rw [ended] at exit
    have part := congrArg LineEcho.part view
    have unsent := congrArg List.length (congrArg LineEcho.queued view)
    simp only [Client.view, LineEcho.takeIn, List.length_append, Client.queued_length] at part unsent
    simp only [Conn.refusalOf, Client.messageLength, part, unsent]
    by_cases full : newline ∈
        (drain newline (sendBufSize - conn.client.sendLen) (conn.pending ready)).2
    · have refused : conn.client.view.takeInExit (chunkOf (recv recvBufSize ready)) =
          .sendBufFull := if_pos full
      rw [exit, refused, if_pos rfl, if_pos full]
      rfl
    · have drained : conn.client.view.takeInExit (chunkOf (recv recvBufSize ready)) =
          .drained := if_neg full
      rw [exit, drained, if_neg (by decide), if_neg full]
  · omega
  · exact absurd empty takenIn.1

theorem refusal_of_not_taken_in (rejected : ¬ TakenIn conn ready) :
    conn.refusalOf ready = none := by
  have exit := (Client.receive_view conn.client ready).2.1
  rcases receive_cases conn.client.view (recv recvBufSize ready) with
    ⟨nonempty, fits, _⟩ | ⟨_, _, _, ended⟩ | ⟨_, _, ended⟩
  · refine absurd ⟨nonempty, ?_⟩ rejected
    rw [Conn.pending, List.length_append]
    exact fits
  · simp [Conn.refusalOf, exit, ended]
  · rw [ended] at exit
    unfold Conn.refusalOf
    match recv recvBufSize ready, exit with
    | .ok _, exit => simp [exit]
    | .error reason, exit => cases reason <;> simp [exit]

/-- Room for a line behind the unsent bytes means that the peer has kept up. -/
theorem right_of_taken_in (takenIn : TakenIn conn ready) {refusal : Refusal}
    (refused : conn.refusalOf ready = some refusal) :
    ∃ length, frameLength newline
        (drain newline (sendBufSize - conn.client.sendLen) (conn.pending ready)).2 = some length ∧
      (Refusal.Right refusal ↔ sendBufSize < conn.client.sendLen - conn.client.sendOffset +
        (drain newline (sendBufSize - conn.client.sendLen) (conn.pending ready)).1.length +
          length) := by
  rw [refusal_of_taken_in takenIn] at refused
  split_ifs at refused with full
  cases refused
  cases found : frameLength newline
      (drain newline (sendBufSize - conn.client.sendLen) (conn.pending ready)).2 with
  | none => exact absurd full (frame_length_none found)
  | some length =>
      refine ⟨length, rfl, ?_⟩
      have backlog := drain_next_le found
      simp only [Refusal.Right, Option.getD_some]
      omega

theorem hasty_refusal_iff :
    (∃ refusal ∈ conn.refusalOf ready, ¬ Refusal.Right refusal) ↔ ¬ NoGap conn (.recv ready) := by
  by_cases takenIn : TakenIn conn ready
  · have ordered := conn.client.offsetBound
    rw [gap_iff takenIn, ← drain_gap]
    constructor
    · rintro ⟨refusal, refused, wrong⟩
      obtain ⟨length, found, right⟩ := right_of_taken_in takenIn refused
      refine ⟨length, found, ?_⟩
      rw [right] at wrong
      omega
    · rintro ⟨length, found, fits⟩
      have full : newline ∈
          (drain newline (sendBufSize - conn.client.sendLen) (conn.pending ready)).2 := by
        by_contra absent
        rw [frame_length_of_not_mem absent] at found
        cases found
      have refused := refusal_of_taken_in takenIn
      rw [if_pos full] at refused
      refine ⟨_, refused, fun right => ?_⟩
      simp only [Refusal.Right, found, Option.getD_some] at right
      have bound := conn.client.lenBound
      omega
  · rw [refusal_of_not_taken_in takenIn]
    simp [NoGap, takenIn]

end Receive

/-! ## Whole runs -/

/-- A refused line closes the connection. -/
def Unrefused (conn : Conn) : Prop := conn.closed = false → conn.refusal = none

theorem refused_closes {conn : Conn} {ready : RecvResult}
    (kept : (handleRecv conn.client ready).2.1 ≠ -1) : conn.refusalOf ready = none := by
  have other : (conn.client.receive ready).2 ≠ .sendBufFull := by
    intro full
    apply kept
    simp only [handleRecv, recvHandler, full]
    rfl
  simp [Conn.refusalOf, other]

theorem advance_unrefused {conn after : Conn} {call : Call} (unrefused : Unrefused conn)
    (taken : conn.advance call = some after) : Unrefused after := by
  cases call with
  | recv ready =>
      have isOpen := advance_open taken
      simp only [Conn.advance, isOpen] at taken
      cases taken
      intro stillOpen
      exact refused_closes (of_decide_eq_false stillOpen)
  | send room =>
      have isOpen := advance_open taken
      simp only [Conn.advance, isOpen] at taken
      cases taken
      intro _
      exact unrefused isOpen

theorem not_hasty_of_none {conn : Conn} (unrefused : conn.refusal = none) : ¬ Hasty conn := by
  rintro ⟨refusal, refused, _⟩
  rw [unrefused] at refused
  cases refused

/-- A call leaves a hasty refusal behind exactly when there was a gap. -/
theorem advance_hasty_iff {conn after : Conn} {call : Call} (unrefused : Unrefused conn)
    (taken : conn.advance call = some after) : Hasty after ↔ Hasty conn ∨ ¬ NoGap conn call := by
  have isOpen := advance_open taken
  have patient := not_hasty_of_none (unrefused isOpen)
  simp only [patient, false_or]
  cases call with
  | recv ready =>
      simp only [Conn.advance, isOpen] at taken
      cases taken
      exact hasty_refusal_iff
  | send room =>
      simp only [Conn.advance, isOpen] at taken
      cases taken
      simp only [NoGap, not_true_eq_false, iff_false]
      exact patient

/-- In a sequence of calls lines are refused for unsent bytes only, exactly when every call that
takes a chunk in finds no gap between the room behind `send_len` and the room that is free. -/
theorem refused_rightly_iff {start final : Conn} {calls : List Call} (opened : Opened start)
    (result : run Conn.advance start calls = some final) :
    (∀ refusal ∈ final.refusal, Refusal.Right refusal) ↔
      run (guardedNext Conn.advance NoGap) start calls = some final := by
  have unrefused : Unrefused start := fun _ => opened.refusal
  have patient := not_hasty_of_none opened.refusal
  have recorded : ¬ Hasty final ↔
      ¬ Hasty start ∧ run (guardedNext Conn.advance NoGap) start calls = some final :=
    run_guarded_iff (fun _ _ _ => advance_unrefused) (fun _ _ _ => advance_hasty_iff) unrefused
      result
  rw [and_iff_right patient] at recorded
  rw [← recorded]
  simp [Hasty]

/-! ## A peer that is one byte behind -/

def fullLine : List Byte := List.replicate 1023 97 ++ [newline]

/-- `send_buf` is filled to its end, all of it but one byte is sent, and a short line comes. -/
def oneByteBehind : List Call :=
  List.replicate 4 (.recv (.ok fullLine)) ++ [.send (.ok 4095), .recv (.ok [98, newline])]

theorem full_line_frame : Frame newline fullLine := by
  refine ⟨List.replicate 1023 97, fun member => ?_, rfl⟩
  exact absurd (List.eq_of_mem_replicate member) (by decide)

theorem full_line_length : fullLine.length = recvBufSize := by
  rw [fullLine, List.length_append, List.length_replicate]
  rfl

/-- A whole line that fits goes behind the others. -/
theorem receive_frame {echo : LineEcho} {chunk : List Byte} (nothing : echo.part = [])
    (frame : Frame newline chunk) (fits : chunk.length ≤ sendBufSize - echo.filled) :
    echo.receive (.ok chunk) =
      (⟨[], echo.queued ++ chunk, echo.filled + chunk.length⟩, .drained) := by
  have line : echo.part ++ chunk = chunk := by rw [nothing, List.nil_append]
  have lineFrame : Frame newline (echo.part ++ chunk) := by rwa [line]
  have lineFits : (echo.part ++ chunk).length ≤ sendBufSize - echo.filled := by rwa [line]
  obtain ⟨queued, drained⟩ := LineEcho.take_in_frame lineFrame lineFits
  rw [line] at queued
  have nonempty : chunk ≠ [] := by
    obtain ⟨body, _, rfl⟩ := frame
    exact List.append_ne_nil_of_right_ne_nil _ (List.cons_ne_nil _ _)
  have inMessage : echo.part.length + chunk.length ≤ messageSize := by
    rw [nothing, List.length_nil, Nat.zero_add]
    exact fits.trans (Nat.sub_le _ _)
  rw [LineEcho.receive, if_neg nonempty, if_pos inMessage, queued, drained]

theorem frame_queued {conn : Conn} (isOpen : conn.closed = false) {queue chunk : List Byte}
    {filled : Nat} (view : conn.client.view = ⟨[], queue, filled⟩) (frame : Frame newline chunk)
    (short : chunk.length ≤ recvBufSize) (room : chunk.length ≤ sendBufSize - filled) :
    ∃ after, conn.advance (.recv (.ok chunk)) = some after ∧ after.closed = false ∧
      after.client.view = ⟨[], queue ++ chunk, filled + chunk.length⟩ := by
  have whole : recv recvBufSize (.ok chunk) = .ok chunk :=
    congrArg Except.ok (List.take_of_length_le short)
  obtain ⟨afterView, _, code, _⟩ := recv_handler_spec recvCode conn.client (.ok chunk)
  rw [whole, view, receive_frame rfl frame room] at afterView code
  obtain ⟨after, taken⟩ := call_advances isOpen (.recv (.ok chunk))
  refine ⟨after, taken, ?_⟩
  simp only [Conn.advance, isOpen] at taken
  cases taken
  refine ⟨?_, afterView⟩
  simp only [handleRecv, code]
  rfl

/-- Line after line, as long as there is room. -/
theorem full_lines_queued {count filled : Nat} {queue : List Byte} {conn : Conn}
    (isOpen : conn.closed = false) (view : conn.client.view = ⟨[], queue, filled⟩)
    (room : filled + count * recvBufSize ≤ sendBufSize) :
    ∃ after, run Conn.advance conn (List.replicate count (.recv (.ok fullLine))) = some after ∧
      after.closed = false ∧ after.client.view =
        ⟨[], queue ++ (List.replicate count fullLine).flatten, filled + count * recvBufSize⟩ := by
  induction count generalizing conn queue filled with
  | zero => exact ⟨conn, rfl, isOpen, by simpa using view⟩
  | succ count ih =>
      rw [Nat.succ_mul] at room
      obtain ⟨middle, first, middleOpen, middleView⟩ :=
        frame_queued isOpen view full_line_frame (Nat.le_of_eq full_line_length)
          (by rw [full_line_length]; omega)
      rw [full_line_length] at middleView
      obtain ⟨after, rest, afterOpen, afterView⟩ := ih middleOpen middleView (by omega)
      refine ⟨after, ?_, afterOpen, ?_⟩
      · rw [List.replicate_succ, run, first]
        exact rest
      · rw [afterView, List.replicate_succ, List.flatten_cons, List.append_assoc, Nat.succ_mul,
          Nat.add_assoc, Nat.add_comm recvBufSize]

theorem one_byte_left {conn : Conn} (isOpen : conn.closed = false) {queue : List Byte}
    (view : conn.client.view = ⟨[], queue, 4096⟩) (full : queue.length = 4096) :
    ∃ after, conn.advance (.send (.ok 4095)) = some after ∧ after.closed = false ∧
      after.client.part = [] ∧ after.client.sendLen = 4096 ∧ after.client.sendOffset = 4095 := by
  have queued : conn.client.queued = queue := congrArg LineEcho.queued view
  have nonempty : queue ≠ [] := by
    rintro rfl
    cases full
  have left : (queue.drop 4095).length = 1 := by rw [List.length_drop, full]
  have notSent : queue.drop 4095 ≠ [] := by
    intro none
    rw [none] at left
    cases left
  obtain ⟨afterView, _, code, _⟩ := send_handler_spec sendCode conn.client (.ok 4095)
  have offered : send conn.client.queued.length (.ok 4095) = .ok (4094 + 1) := by
    rw [queued, full]
    rfl
  rw [offered, view] at afterView code
  simp only [LineEcho.flush, if_neg nonempty, LineEcho.sendOut, if_neg notSent] at afterView code
  obtain ⟨after, taken⟩ := call_advances isOpen (.send (.ok 4095))
  refine ⟨after, taken, ?_⟩
  simp only [Conn.advance, isOpen] at taken
  cases taken
  have part : (handleSend conn.client (.ok 4095)).1.part = [] := congrArg LineEcho.part afterView
  have sendLen : (handleSend conn.client (.ok 4095)).1.sendLen = 4096 :=
    congrArg LineEcho.filled afterView
  have unsent := congrArg List.length (congrArg LineEcho.queued afterView)
  simp only [Client.view, Client.queued_length, left] at unsent
  refine ⟨?_, part, sendLen, ?_⟩
  · simp only [handleSend, code]
    rfl
  · have bound := (handleSend conn.client (.ok 4095)).1.offsetBound
    show (handleSend conn.client (.ok 4095)).1.sendOffset = 4095
    rw [handleSend] at sendLen bound ⊢
    omega

/-- Behind a full `send_buf` a line of two bytes is refused, whatever is unsent. -/
theorem short_line_refused {conn : Conn} (isOpen : conn.closed = false)
    (nothing : conn.client.part = []) (sendLen : conn.client.sendLen = 4096) :
    ∃ after, conn.advance (.recv (.ok [98, newline])) = some after ∧
      after.refusal =
        some ⟨4096 - conn.client.sendOffset, 2, 4096 - conn.client.sendOffset + 2⟩ := by
  have pending : conn.pending (.ok [98, newline]) = [98, newline] := by
    rw [Conn.pending, nothing]
    rfl
  have takenIn : TakenIn conn (.ok [98, newline]) := by
    rw [TakenIn, pending]
    decide
  have located : frameLength newline [98, newline] = some 2 := by decide
  have stays : drain newline (sendBufSize - 4096) [98, newline] = ([], [98, newline]) :=
    drain_of_too_long located (by decide)
  obtain ⟨after, taken⟩ := call_advances isOpen (.recv (.ok [98, newline]))
  refine ⟨after, taken, ?_⟩
  simp only [Conn.advance, isOpen] at taken
  cases taken
  show conn.refusalOf (.ok [98, newline]) = _
  have refused : newline ∈ [98, newline] := by decide
  have whole : (complete newline [98, newline]).length = 2 := by decide
  rw [refusal_of_taken_in takenIn, pending, sendLen, stays, if_pos refused, located, whole]
  rfl

theorem one_byte_behind_run :
    ∃ final, run Conn.advance Conn.fresh oneByteBehind = some final ∧
      final.refusal = some ⟨1, 2, 3⟩ := by
  have fresh : Conn.fresh.closed = false := rfl
  have room : 0 + 4 * recvBufSize ≤ sendBufSize := by decide
  obtain ⟨filled, lines, isOpen, view⟩ := full_lines_queued fresh Client.init_view room
  obtain ⟨sent, send, sentOpen, part, sendLen, sendOffset⟩ := one_byte_left isOpen view (by
    rw [List.nil_append, List.length_flatten, List.map_replicate, full_line_length]
    decide)
  obtain ⟨final, recv, refused⟩ := short_line_refused sentOpen part sendLen
  rw [sendOffset] at refused
  refine ⟨final, ?_, refused⟩
  rw [oneByteBehind, run_append, lines, Option.bind_some, run, send, Option.bind_some, run, recv]
  rfl

/-- Nothing of the four lines is sent when the short one comes. -/
def nothingSent : List Call :=
  List.replicate 4 (.recv (.ok fullLine)) ++ [.recv (.ok [98, newline])]

theorem nothing_sent_run :
    ∃ final, run Conn.advance Conn.fresh nothingSent = some final ∧
      final.refusal = some ⟨4096, 2, 4098⟩ := by
  have fresh : Conn.fresh.closed = false := rfl
  have room : 0 + 4 * recvBufSize ≤ sendBufSize := by decide
  obtain ⟨filled, lines, isOpen, view⟩ := full_lines_queued fresh Client.init_view room
  have part : filled.client.part = [] := congrArg LineEcho.part view
  have sendLen : filled.client.sendLen = 4096 := congrArg LineEcho.filled view
  have queued := congrArg List.length (congrArg LineEcho.queued view)
  simp only [Client.view, Client.queued_length, List.nil_append, List.length_flatten,
    List.map_replicate, full_line_length, List.sum_replicate] at queued
  have sendOffset : filled.client.sendOffset = 0 := by
    have whole : 4 • recvBufSize = 4096 := rfl
    have bound := filled.client.offsetBound
    omega
  obtain ⟨final, recv, refused⟩ := short_line_refused isOpen part sendLen
  rw [sendOffset] at refused
  refine ⟨final, ?_, refused⟩
  rw [nothingSent, run_append, lines, Option.bind_some, run, recv]
  rfl

theorem refused_rightly_iff_nothing_sent :
    ∃ final, run Conn.advance Conn.fresh nothingSent = some final ∧
      final.refusal = some ⟨4096, 2, 4098⟩ ∧ Refusal.Right ⟨4096, 2, 4098⟩ ∧
      run (guardedNext Conn.advance NoGap) Conn.fresh nothingSent = some final := by
  obtain ⟨final, result, refused⟩ := nothing_sent_run
  have right : Refusal.Right ⟨4096, 2, 4098⟩ := by
    constructor <;> decide
  refine ⟨final, result, refused, right, (refused_rightly_iff fresh_opened result).mp ?_⟩
  intro refusal recorded
  rw [refused] at recorded
  cases recorded
  exact right

/-- One byte is unsent and the line has two, but `send_len` is at the end of `send_buf`. -/
theorem short_line_disconnects :
    ∃ final, run Conn.advance Conn.fresh oneByteBehind = some final ∧ Reachable SelectServerV2Calls.system final ∧
      final.refusal = some ⟨1, 2, 3⟩ ∧ ¬ Refusal.Right ⟨1, 2, 3⟩ := by
  obtain ⟨final, result, refused⟩ := one_byte_behind_run
  have reached : Reachable SelectServerV2Calls.system final :=
    reachable_of_run (fun _ _ _ => id) (.start fresh_opened) result
  refine ⟨final, result, reached, refused, ?_⟩
  rintro ⟨tooLong, _⟩
  revert tooLong
  decide

end LinuxSystemPrograms.SelectServerV2Backlog
