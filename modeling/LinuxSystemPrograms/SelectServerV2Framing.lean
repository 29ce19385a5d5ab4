import LinuxSystemPrograms.SelectServerV2Calls

/-!
# Which lines `tcp_select_server_v2.c` accepts

`handle_recv` compares the unfinished line together with the whole new chunk with the size of
`recv_message`. When `send_buf` is empty this is the only test that can fail, and what
matters is how much of a line is pending when a chunk comes.
-/

namespace LinuxSystemPrograms.SelectServerV2Framing

open LinuxSystemPrograms.ConnectionAccount
open LinuxSystemPrograms.EchoClient
open LinuxSystemPrograms.Framing
open LinuxSystemPrograms.SelectServerV2
open LinuxSystemPrograms.SelectServerV2Calls
open LinuxSystemPrograms.Sockets
open LinuxSystemPrograms.Transition

set_option autoImplicit false

/-- `handle_recv` is called when `send_buf` has been sent, and gets the next bytes of the
stream. -/
def Delivers (stream : List Byte) (conn : Conn) : Call → Prop
  | .recv ready =>
      conn.client.sendLen = conn.client.sendOffset ∧
        ∃ chunk, ready = .ok chunk ∧ chunk ≠ [] ∧ chunk.length ≤ recvBufSize ∧
          conn.received ++ chunk <+: stream
  | .send _ => True

def segmentations (stream : List Byte) : System Conn Call := guarded system (Delivers stream)

/-! ## One call -/

theorem flush_part (echo : LineEcho) (result : SendResult) :
    (echo.flush result).1.part = echo.part := by
  unfold LineEcho.flush
  split_ifs
  · rfl
  · match result with
    | .ok 0 => rfl
    | .ok (count + 1) => exact LineEcho.send_out_part echo (count + 1)
    | .error .eagain | .error .eintr | .error .einprogress | .error .emsgsize | .error .eproto
    | .error .econnreset | .error (.other _) => rfl

/-- With `send_buf` empty every complete line of the chunk is queued, unless the chunk does not
fit behind the unfinished line. -/
theorem receive_sent {echo : LineEcho} {chunk : List Byte} (sent : echo.queued = [])
    (reset : echo.Reset) (nonempty : chunk ≠ []) :
    (echo.part.length + chunk.length ≤ messageSize ∧
        (echo.receive (.ok chunk)).2 = .drained ∧
        newline ∉ (echo.receive (.ok chunk)).1.part ∧
        ∃ lines, Framed newline lines ∧
          lines ++ (echo.receive (.ok chunk)).1.part = echo.part ++ chunk) ∨
      (messageSize < echo.part.length + chunk.length ∧
        (echo.receive (.ok chunk)).2 = .messageTooLong) := by
  rcases receive_cases echo (.ok chunk) with
    ⟨_, fits, after, exit⟩ | ⟨_, tooLong, _, exit⟩ | ⟨empty, _⟩
  · left
    simp only [chunkOf] at fits after exit
    have noLine := LineEcho.take_in_of_empty (reset sent) fits
    obtain ⟨lines, framed, queued⟩ := LineEcho.take_in_framed echo chunk
    have balance := LineEcho.take_in_balance echo chunk
    rw [queued, sent, List.nil_append, List.nil_append] at balance
    rw [after, exit]
    exact ⟨fits, if_neg noLine, noLine, lines, framed, balance⟩
  · exact Or.inr ⟨tooLong, exit⟩
  · exact absurd empty nonempty

theorem recv_call {conn after : Conn} {chunk : List Byte} (reset : conn.client.view.Reset)
    (sent : conn.client.sendLen = conn.client.sendOffset) (nonempty : chunk ≠ [])
    (short : chunk.length ≤ recvBufSize) (taken : conn.advance (.recv (.ok chunk)) = some after) :
    after.received = conn.received ++ chunk ∧
      ((conn.client.part.length + chunk.length ≤ messageSize ∧
          after.returns = conn.returns ++ [0] ∧ after.closed = false ∧
          newline ∉ after.client.part ∧
          ∃ lines, Framed newline lines ∧
            lines ++ after.client.part = conn.client.part ++ chunk) ∨
        (messageSize < conn.client.part.length + chunk.length ∧
          after.returns = conn.returns ++ [-1])) := by
  have whole : recv recvBufSize (.ok chunk) = .ok chunk :=
    congrArg Except.ok (List.take_of_length_le short)
  obtain ⟨view, _, code, _⟩ := recv_handler_spec recvCode conn.client (.ok chunk)
  rw [whole] at view code
  simp only [Conn.advance, whole] at taken
  split_ifs at taken
  cases taken
  refine ⟨rfl, ?_⟩
  have queued : conn.client.view.queued = [] := Client.queued_eq_nil.mpr sent
  rcases receive_sent queued reset nonempty with
    ⟨fits, exit, noLine, lines, framed, balance⟩ | ⟨tooLong, exit⟩
  · left
    rw [← view] at noLine balance
    rw [exit] at code
    refine ⟨fits, congrArg (fun value => conn.returns ++ [value]) code, ?_, noLine, lines, framed,
      balance⟩
    simp only [handleRecv, code]
    rfl
  · right
    rw [exit] at code
    exact ⟨tooLong, congrArg (fun value => conn.returns ++ [value]) code⟩

theorem send_call {conn after : Conn} {room : SendResult}
    (taken : conn.advance (.send room) = some after) :
    after.client.part = conn.client.part ∧ after.received = conn.received ∧
      after.returns = conn.returns := by
  have view := (send_handler_spec sendCode conn.client room).1
  simp only [Conn.advance] at taken
  split_ifs at taken
  cases taken
  have part : (handleSend conn.client room).1.view.part = conn.client.view.part := by
    rw [handleSend, view]
    exact flush_part _ _
  exact ⟨part, rfl, rfl⟩

/-! ## Whole runs -/

variable {stream : List Byte}

/-- What has arrived is complete lines, and the bytes in `recv_message`. -/
structure Fed (stream : List Byte) (conn : Conn) : Prop where
  reset : conn.client.view.Reset
  arrived : conn.received <+: stream
  split : -1 ∉ conn.returns → ∃ before, conn.received = before ++ conn.client.part ∧
    Framed newline before ∧ newline ∉ conn.client.part

theorem opened_fed {conn : Conn} (opened : Opened conn) : Fed stream conn := by
  have part : conn.client.part = [] := congrArg LineEcho.part opened.client
  constructor
  · rw [opened.client]
    exact fun _ => rfl
  · rw [opened.received]
    exact List.nil_prefix
  · intro _
    refine ⟨[], ?_, framed_nil newline, ?_⟩
    · rw [opened.received, part]
      rfl
    · rw [part]
      exact List.not_mem_nil

theorem step_fed {conn after : Conn} {call : Call} (fed : Fed stream conn)
    (taken : (segmentations stream).step conn call after) : Fed stream after := by
  obtain ⟨delivers, advanced⟩ := taken
  have reset := step_reset fed.reset advanced
  cases call with
  | send room =>
      obtain ⟨part, received, returns⟩ := send_call advanced
      refine ⟨reset, ?_, ?_⟩
      · rw [received]
        exact fed.arrived
      · rw [part, received, returns]
        exact fed.split
  | recv ready =>
      obtain ⟨sent, chunk, rfl, nonempty, short, next⟩ := delivers
      obtain ⟨received, outcome⟩ := recv_call fed.reset sent nonempty short advanced
      refine ⟨reset, ?_, ?_⟩
      · rw [received]
        exact next
      · intro accepted
        rcases outcome with ⟨_, returns, _, noLine, lines, framed, balance⟩ | ⟨_, returns⟩
        · rw [returns] at accepted
          obtain ⟨before, split, beforeFramed, _⟩ :=
            fed.split fun member => accepted (List.mem_append_left _ member)
          refine ⟨before ++ lines, ?_, framed_append beforeFramed framed, noLine⟩
          rw [received, split, List.append_assoc, List.append_assoc, balance]
        · rw [returns] at accepted
          simp at accepted

theorem reachable_fed {conn : Conn} (reached : Reachable (segmentations stream) conn) :
    Fed stream conn :=
  reachable_invariant (fun _ => opened_fed) (fun _ _ _ _ => step_fed) reached

/-- A chunk is refused only if too much of its line is pending. -/
theorem chunk_fits {frameBound : Nat} {conn : Conn} {chunk : List Byte} (fed : Fed stream conn)
    (accepted : -1 ∉ conn.returns) (within : FramesWithin newline frameBound messageSize stream)
    (next : conn.received ++ chunk <+: stream) (short : chunk.length ≤ messageSize + 1 - frameBound)
    (bounded : frameBound ≤ messageSize + 1) :
    conn.client.part.length + chunk.length ≤ messageSize := by
  obtain ⟨before, split, framed, absent⟩ := fed.split accepted
  obtain ⟨rest, whole⟩ := next
  rw [split] at whole
  have pending := within.pending (by rw [← whole, List.append_assoc]) framed absent
  rw [List.length_append] at pending
  omega

theorem step_accepted {conn after : Conn} {call : Call}
    (within : FramesWithin newline 3073 messageSize stream) (fed : Fed stream conn)
    (accepted : -1 ∉ conn.returns) (taken : (segmentations stream).step conn call after) :
    -1 ∉ after.returns := by
  obtain ⟨delivers, advanced⟩ := taken
  cases call with
  | send room =>
      rw [(send_call advanced).2.2]
      exact accepted
  | recv ready =>
      obtain ⟨sent, chunk, rfl, nonempty, short, next⟩ := delivers
      have fits := chunk_fits fed accepted within next short (by decide)
      obtain ⟨_, ⟨_, returns, _⟩ | ⟨tooLong, _⟩⟩ :=
        recv_call fed.reset sent nonempty short advanced
      · rw [returns, List.mem_append, not_or]
        exact ⟨accepted, by decide⟩
      · omega

theorem short_lines_accepted (within : FramesWithin newline 3073 messageSize stream) {conn : Conn}
    (reached : Reachable (segmentations stream) conn) : -1 ∉ conn.returns := by
  have both : Fed stream conn ∧ -1 ∉ conn.returns := by
    apply reachable_invariant _ _ reached
    · intro start opened
      refine ⟨opened_fed opened, ?_⟩
      rw [opened.returns]
      exact List.not_mem_nil
    · rintro prior call after _ ⟨fed, accepted⟩ taken
      exact ⟨step_fed fed taken, step_accepted within fed accepted taken⟩
  exact both.2

/-! ## One byte at a time -/

/-- A socket with room for everything. -/
theorem send_everything {conn after : Conn}
    (taken : conn.advance (.send (.ok sendBufSize)) = some after) :
    after.client.sendLen = after.client.sendOffset ∧ after.closed = false := by
  obtain ⟨view, _, code, _⟩ := send_handler_spec sendCode conn.client (.ok sendBufSize)
  have short : conn.client.view.queued.length ≤ sendBufSize := by
    have bound := conn.client.lenBound
    simp only [Client.view, Client.queued_length]
    omega
  have offered : send conn.client.queued.length (.ok sendBufSize) =
      .ok conn.client.view.queued.length := congrArg Except.ok (Nat.min_eq_right short)
  rw [offered] at view code
  have sent : (conn.client.view.flush (.ok conn.client.view.queued.length)).1.queued = [] ∧
      sendCode (conn.client.view.flush (.ok conn.client.view.queued.length)).2 ≠ -1 := by
    generalize conn.client.view = echo
    by_cases nothing : echo.queued = []
    · rw [LineEcho.flush_idle nothing]
      refine ⟨nothing, ?_⟩
      show sendCode .idle ≠ -1
      decide
    · obtain ⟨count, length⟩ :=
        Nat.exists_eq_succ_of_ne_zero (fun empty => nothing (List.length_eq_zero_iff.mp empty))
      have all : echo.queued.drop (count + 1) = [] := by
        rw [List.drop_eq_nil_iff, length]
      rw [length]
      simp only [LineEcho.flush, if_neg nothing, all, if_true, LineEcho.send_out_queued, true_and]
      decide
  simp only [Conn.advance] at taken
  split_ifs at taken
  cases taken
  constructor
  · apply Client.queued_eq_nil.mp
    have same : (handleSend conn.client (.ok sendBufSize)).1.view.queued = [] := by
      rw [handleSend, view]
      exact sent.1
    exact same
  · simp only [handleSend, code]
    exact decide_eq_false sent.2

/-- The stream up to a point has arrived byte by byte, and all lines have been sent back. -/
structure Bytewise (stream received : List Byte) (conn : Conn) : Prop where
  reached : Reachable (segmentations stream) conn
  received : conn.received = received
  accepted : -1 ∉ conn.returns
  isOpen : conn.closed = false
  sent : conn.client.sendLen = conn.client.sendOffset

theorem bytewise_start (stream : List Byte) :
    ∃ conn, Bytewise stream [] conn := by
  refine ⟨Conn.fresh, ?_⟩
  constructor
  · exact .start fresh_opened
  · rfl
  · exact List.not_mem_nil
  · rfl
  · rfl

theorem bytewise_next (within : FramesWithin newline messageSize messageSize stream)
    {received : List Byte} {byte : Byte} {conn : Conn} (fed : Bytewise stream received conn)
    (next : received ++ [byte] <+: stream) :
    ∃ after, Bytewise stream (received ++ [byte]) after := by
  have arrives : conn.received ++ [byte] <+: stream := by
    rw [fed.received]
    exact next
  have before := reachable_fed fed.reached
  obtain ⟨middle, received⟩ := call_advances fed.isOpen (.recv (.ok [byte]))
  have reads : Reachable (segmentations stream) middle :=
    .next (.recv (.ok [byte])) fed.reached
      ⟨⟨fed.sent, [byte], rfl, by simp, by simp [recvBufSize], arrives⟩, received⟩
  have fits := chunk_fits before fed.accepted within arrives (by simp) (by decide)
  obtain ⟨bytes, ⟨_, returns, isOpen, _⟩ | ⟨tooLong, _⟩⟩ :=
    recv_call before.reset fed.sent (by simp) (by simp [recvBufSize]) received
  · obtain ⟨after, sends⟩ := call_advances isOpen (.send (.ok sendBufSize))
    obtain ⟨sent, stillOpen⟩ := send_everything sends
    obtain ⟨_, sameBytes, sameReturns⟩ := send_call sends
    have reached : Reachable (segmentations stream) after :=
      .next (.send (.ok sendBufSize)) reads ⟨trivial, sends⟩
    refine ⟨after, reached, ?_, ?_, stillOpen, sent⟩
    · rw [sameBytes, bytes, fed.received]
    · rw [sameReturns, returns, List.mem_append, not_or]
      exact ⟨fed.accepted, by decide⟩
  · omega

theorem bytewise_accepted (within : FramesWithin newline messageSize messageSize stream)
    {received : List Byte} (arrives : received <+: stream) :
    ∃ conn, Bytewise stream received conn := by
  induction received using List.reverseRecOn with
  | nil => exact bytewise_start stream
  | append_singleton earlier byte ih =>
      obtain ⟨conn, fed⟩ := ih ((List.prefix_append _ _).trans arrives)
      exact bytewise_next within fed arrives

/-- The first 3073 bytes of a longer line are pending when a whole `recv_buf` arrives. -/
theorem long_line_rejected (within : FramesWithin newline messageSize messageSize stream)
    {before line after : List Byte} (split : stream = before ++ line ++ after)
    (framed : Framed newline before) (frame : Frame newline line) (long : 3074 ≤ line.length)
    (more : 1023 ≤ after.length) :
    ∃ conn, Reachable (segmentations stream) conn ∧ -1 ∈ conn.returns := by
  have whole : line.take 3073 ++ line.drop 3073 = line := List.take_append_drop _ _
  have arrived : before ++ line.take 3073 <+: stream := by
    refine ⟨line.drop 3073 ++ after, ?_⟩
    rw [split, List.append_assoc, ← List.append_assoc (line.take 3073), whole, List.append_assoc]
  obtain ⟨conn, fed⟩ := bytewise_accepted within arrived
  have before' := reachable_fed fed.reached
  obtain ⟨lines, received, linesFramed, absent⟩ := before'.split fed.accepted
  have pending : conn.client.part = line.take 3073 := by
    obtain ⟨body, noNewline, rfl⟩ := frame
    have cut : (body ++ [newline]).take 3073 = body.take 3073 := by
      rw [List.length_append, List.length_singleton] at long
      exact List.take_append_of_le_length (by omega)
    have unfinished : newline ∉ body.take 3073 := fun member =>
      noNewline (List.mem_of_mem_take member)
    rw [fed.received, cut] at received
    rw [cut]
    have left := complete_append_unfinished framed unfinished
    have right := complete_append_unfinished linesFramed absent
    rw [received, right] at left
    rw [left] at received
    exact (List.append_cancel_left received).symm
  have chunkLength : ((line.drop 3073 ++ after).take recvBufSize).length = recvBufSize := by
    rw [List.length_take, List.length_append, List.length_drop]
    simp only [recvBufSize]
    omega
  have nonempty : (line.drop 3073 ++ after).take recvBufSize ≠ [] := by
    intro empty
    rw [empty] at chunkLength
    cases chunkLength
  have next : conn.received ++ (line.drop 3073 ++ after).take recvBufSize <+: stream := by
    refine ⟨(line.drop 3073 ++ after).drop recvBufSize, ?_⟩
    rw [fed.received, List.append_assoc, List.take_append_drop, split, List.append_assoc,
      ← List.append_assoc (line.take 3073), whole, List.append_assoc]
  generalize (line.drop 3073 ++ after).take recvBufSize = chunk at chunkLength nonempty next
  obtain ⟨final, taken⟩ := call_advances fed.isOpen (.recv (.ok chunk))
  refine ⟨final, .next (.recv (.ok chunk)) fed.reached
    ⟨⟨fed.sent, chunk, rfl, nonempty, Nat.le_of_eq chunkLength, next⟩, taken⟩, ?_⟩
  obtain ⟨_, ⟨fits, _⟩ | ⟨_, returns⟩⟩ :=
    recv_call before'.reset fed.sent nonempty (Nat.le_of_eq chunkLength) taken
  · rw [pending, chunkLength, List.length_take] at fits
    simp only [recvBufSize, messageSize] at fits
    omega
  · rw [returns]
    simp

/-- Lines of up to 3073 bytes are accepted however they are cut. A longer line that fits into
`recv_message` is accepted byte by byte, and refused when a whole chunk comes behind its first
3073 bytes. -/
theorem accepted_line_lengths (stream : List Byte) :
    (FramesWithin newline 3073 messageSize stream →
        ∀ conn, Reachable (segmentations stream) conn → -1 ∉ conn.returns) ∧
      (FramesWithin newline messageSize messageSize stream →
        ∀ before line after, stream = before ++ line ++ after → Framed newline before →
          Frame newline line → 3074 ≤ line.length → 1023 ≤ after.length →
            (∃ conn, Reachable (segmentations stream) conn ∧ conn.received = stream ∧
              -1 ∉ conn.returns) ∧
            ∃ conn, Reachable (segmentations stream) conn ∧ -1 ∈ conn.returns) := by
  constructor
  · intro within conn reached
    exact short_lines_accepted within reached
  · intro within before line after split framed frame long more
    obtain ⟨conn, fed⟩ := bytewise_accepted within (List.prefix_refl stream)
    exact ⟨⟨conn, fed.reached, fed.received, fed.accepted⟩,
      long_line_rejected within split framed frame long more⟩

theorem accepted_line_lengths_one_long_line :
    ∃ stream : List Byte,
      (∃ conn, Reachable (segmentations stream) conn ∧ conn.received = stream ∧
        -1 ∉ conn.returns) ∧
      ∃ conn, Reachable (segmentations stream) conn ∧ -1 ∈ conn.returns := by
  have letters : ∀ count, ∃ word : List Byte, word.length = count ∧ newline ∉ word := by
    intro count
    refine ⟨List.replicate count 97, List.length_replicate, fun member => ?_⟩
    exact absurd (List.eq_of_mem_replicate member) (by decide)
  obtain ⟨word, wordLength, wordAbsent⟩ := letters 3073
  obtain ⟨rest, restLength, restAbsent⟩ := letters 1023
  have lineLength : (word ++ [newline]).length = 3074 := by
    rw [List.length_append, wordLength, List.length_singleton]
  have frame : Frame newline (word ++ [newline]) := ⟨word, wordAbsent, rfl⟩
  have within : FramesWithin newline messageSize messageSize (word ++ [newline] ++ rest) :=
    frames_within_of_frame frame restAbsent (by rw [lineLength]; decide)
      (by rw [restLength]; decide)
  exact ⟨_, (accepted_line_lengths _).2 within [] (word ++ [newline]) rest rfl
    (framed_nil newline) frame (Nat.le_of_eq lineLength.symm) (Nat.le_of_eq restLength.symm)⟩

end LinuxSystemPrograms.SelectServerV2Framing
