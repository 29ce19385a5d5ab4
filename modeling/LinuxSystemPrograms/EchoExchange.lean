import LinuxSystemPrograms.ConnectionAccount

/-!
# One request on its way through a line echo server

A request line is cut anywhere: what the requester has not sent yet, what is on the wire,
what the server holds, what is on the wire back and what the requester has read. As the
newline is its last byte, the server answers nothing before it holds the whole line, and
`Exchange` has only two shapes. Each step of either side keeps it, and the step that
brings the newline back finds every other place empty, the server's `send_buf` included.
-/

namespace LinuxSystemPrograms.EchoExchange

open LinuxSystemPrograms.ConnectionAccount
open LinuxSystemPrograms.EchoClient
open LinuxSystemPrograms.Framing
open LinuxSystemPrograms.Sockets

set_option autoImplicit false

/-- Where the bytes of `request` are when `offset` of them have been sent and `response`
has come back. -/
inductive Exchange (request : List Byte) (offset : Nat) (response toServer toClient : List Byte)
    (echo : LineEcho) : Prop where
  | outward (unread : response = []) (wireBack : toClient = []) (idle : echo.queued = [])
      (reset : echo.filled = 0) (unfinished : newline ∉ echo.part)
      (split : echo.part ++ toServer = request.take offset)
  | homeward (allSent : offset = request.length) (wire : toServer = []) (taken : echo.part = [])
      (reset : echo.Reset) (split : response ++ toClient ++ echo.queued = request)

theorem exchange_begin (request : List Byte) : Exchange request 0 [] [] [] LineEcho.empty := by
  apply Exchange.outward rfl rfl rfl rfl
  · exact List.not_mem_nil
  · exact (List.take_zero).symm

variable {request response toServer toClient : List Byte} {offset : Nat} {echo : LineEcho}

theorem exchange_response_le
    (exchange : Exchange request offset response toServer toClient echo) :
    response.length ≤ request.length := by
  cases exchange with
  | outward unread wireBack idle reset unfinished split =>
      rw [unread]
      exact Nat.zero_le _
  | homeward allSent wire taken reset split =>
      rw [← split]
      simp only [List.length_append]
      omega

/-- The requester hands `count` more bytes to the wire. -/
theorem exchange_client_send (exchange : Exchange request offset response toServer toClient echo)
    {count : Nat} (within : offset + count ≤ request.length) :
    Exchange request (offset + count) response
      (toServer ++ (request.drop offset).take count) toClient echo := by
  cases exchange with
  | outward unread wireBack idle reset unfinished split =>
      apply Exchange.outward unread wireBack idle reset unfinished
      rw [List.take_add, ← List.append_assoc, split]
  | homeward allSent wire taken reset split =>
      have none : count = 0 := by omega
      subst none
      apply Exchange.homeward allSent _ taken reset split
      rw [wire, List.take_zero, List.append_nil]

/-- The server reads `chunk`: either the newline is still missing, or the whole request
moves to `send_buf`. -/
theorem exchange_server_recv (frame : Frame newline request) (short : request.length ≤ sendBufSize)
    (within : offset ≤ request.length) {chunk rest : List Byte}
    (exchange : Exchange request offset response (chunk ++ rest) toClient echo)
    (nonempty : chunk ≠ []) :
    Exchange request offset response rest toClient (echo.receive (.ok chunk)).1 ∧
      (echo.receive (.ok chunk)).2 = .drained := by
  cases exchange with
  | homeward allSent wire taken reset split =>
      exact absurd (List.append_eq_nil_iff.mp wire).1 nonempty
  | outward unread wireBack idle reset unfinished split =>
      have whole : echo.part ++ chunk ++ (rest ++ request.drop offset) = request := by
        calc
          echo.part ++ chunk ++ (rest ++ request.drop offset)
              = echo.part ++ (chunk ++ rest) ++ request.drop offset := by
                simp only [List.append_assoc]
          _ = request := by rw [split, List.take_append_drop]
      have fits : (echo.part ++ chunk).length ≤ sendBufSize - echo.filled := by
        have lengths := congrArg List.length whole
        simp only [List.length_append, reset] at lengths ⊢
        omega
      have step : echo.receive (.ok chunk) = (echo.takeIn chunk, echo.takeInExit chunk) := by
        rw [LineEcho.receive, if_neg nonempty, if_pos]
        rw [← List.length_append]
        simp only [sendBufSize, messageSize] at fits ⊢
        omega
      rw [step]
      by_cases complete : newline ∈ echo.part ++ chunk
      · obtain ⟨same, nothing⟩ := frame_prefix_complete frame whole complete
        obtain ⟨noRest, noSuffix⟩ := List.append_eq_nil_iff.mp nothing
        have allSent : request.length ≤ offset := List.drop_eq_nil_iff.mp noSuffix
        obtain ⟨after, exit⟩ := LineEcho.take_in_frame (same ▸ frame) fits
        refine ⟨?_, exit⟩
        rw [after]
        apply Exchange.homeward
        · omega
        · exact noRest
        · rfl
        · intro empty
          simp only [same, idle, List.nil_append] at empty ⊢
          simp [reset, empty]
        · simp [unread, wireBack, idle, same]
      · obtain ⟨after, exit⟩ := LineEcho.take_in_unfinished complete
        refine ⟨?_, exit⟩
        rw [after]
        apply Exchange.outward
        · exact unread
        · exact wireBack
        · exact idle
        · exact reset
        · exact complete
        · rw [List.append_assoc, split]

/-- The server writes some of its queue to the wire back. -/
theorem exchange_server_send (exchange : Exchange request offset response toServer toClient echo)
    (code : SendExit → Int) (result : SendResult) :
    Exchange request offset response toServer (toClient ++ sent (sendEvents code echo result))
      (echo.flush result).1 := by
  cases exchange with
  | outward unread wireBack idle reset unfinished split =>
      have silent : sent (sendEvents code echo result) = [] := by
        simp [sendEvents, idle, ConnEvent.sentBytes]
      rw [LineEcho.flush_idle idle, silent, List.append_nil]
      exact .outward unread wireBack idle reset unfinished split
  | homeward allSent wire taken reset split =>
      obtain ⟨queue, part⟩ := sent_send_events code echo result
      apply Exchange.homeward allSent wire
      · rw [part, taken]
      · exact flush_reset reset result
      · calc
          response ++ (toClient ++ sent (sendEvents code echo result)) ++
              (echo.flush result).1.queued
              = response ++ toClient ++ (sent (sendEvents code echo result) ++
                  (echo.flush result).1.queued) := by simp only [List.append_assoc]
          _ = request := by rw [queue, split]

/-- The requester reads `chunk`: either the newline is still missing, or the response is
the request and nothing of it is left anywhere. -/
theorem exchange_client_recv (frame : Frame newline request) {chunk rest : List Byte}
    (exchange : Exchange request offset response toServer (chunk ++ rest) echo)
    (nonempty : chunk ≠ []) :
    (newline ∉ response ++ chunk ∧
        Exchange request offset (response ++ chunk) toServer rest echo) ∨
      (response ++ chunk = request ∧ toServer = [] ∧ rest = [] ∧ echo = LineEcho.empty) := by
  cases exchange with
  | outward unread wireBack idle reset unfinished split =>
      exact absurd (List.append_eq_nil_iff.mp wireBack).1 nonempty
  | homeward allSent wire taken reset split =>
      rw [← List.append_assoc response, List.append_assoc] at split
      by_cases complete : newline ∈ response ++ chunk
      · right
        obtain ⟨same, nothing⟩ := frame_prefix_complete frame split complete
        obtain ⟨noRest, noQueue⟩ := List.append_eq_nil_iff.mp nothing
        refine ⟨same, wire, noRest, ?_⟩
        cases echo
        simp_all [LineEcho.empty, LineEcho.Reset]
      · left
        refine ⟨complete, Exchange.homeward allSent wire taken reset ?_⟩
        rw [List.append_assoc, split]

end LinuxSystemPrograms.EchoExchange
