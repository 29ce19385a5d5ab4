import LinuxSystemPrograms.CString
import LinuxSystemPrograms.Sockets
import LinuxSystemPrograms.Transition

/-!
# `fifo_write.c` and `fifo_read.c`

A step is one `read` of one of the programs with what its loop does until the next one. The
answers of the FIFO are part of the label; what stdin delivers is part of the state. Both
programs hold the result of `read` in a `size_t`, the second one after comparing it with 0.
-/

namespace LinuxSystemPrograms.FifoPipe

open LinuxSystemPrograms.CharArray
open LinuxSystemPrograms.CString
open LinuxSystemPrograms.Sockets
open LinuxSystemPrograms.Transition

set_option autoImplicit false

def maxSize : Nat := 50

abbrev Buffer := List.Vector Byte maxSize

/-- The data of one `read(STDIN_FILENO, buf, MAX_SIZE - 1)`. -/
structure Chunk where
  bytes : List Byte
  nonempty : bytes ≠ []
  bounded : bytes.length ≤ maxSize - 1

theorem Chunk.inside (chunk : Chunk) : 0 + chunk.bytes.length ≤ maxSize := by
  have := chunk.bounded
  omega

/-- The value of a `ssize_t` held in a `size_t`. -/
def sizeT (value : Int) : Nat := (value % 2 ^ 64).toNat

/-- `killed` is the end by `SIGPIPE`, `wild` an access outside `buf`. -/
inductive Process where
  | running
  | exited (success : Bool)
  | killed
  | wild
  deriving DecidableEq, Repr

/-- `input` are the reads of stdin to come and `ending` what the `read` behind them fails with,
if it does not return 0; `reads` are the results of the reads of the FIFO that gave data. -/
structure State where
  input : List Chunk
  ending : Option Errno
  writeBuf : Buffer
  writer : Process
  stdinFailed : Bool
  pipe : List Byte
  readBuf : Buffer
  reader : Process
  fifoFailed : Bool
  reads : List Nat
  stdout : List Byte

inductive Label where
  | writer
  | reader (answer : Except Errno Nat)

/-- `buf[read_char] = '\\0'; write(fd, buf, strlen(buf));` -/
def sendLine (state : State) (readChar : Nat) : State :=
  if inside : readChar + 1 ≤ maxSize then
    let writeBuf := memcpy state.writeBuf readChar [0] inside
    match string 0 writeBuf with
    | none => { state with writeBuf := writeBuf, writer := .wild }
    | some line =>
        if line ≠ [] ∧ state.reader ≠ .running then
          { state with writeBuf := writeBuf, writer := .killed }
        else { state with writeBuf := writeBuf, pipe := state.pipe ++ line }
  else { state with writer := .wild }

def onStdin (state : State) (result : Int) : State :=
  if 0 < sizeT result then sendLine state (sizeT result)
  else { state with writer := .exited (decide ¬ sizeT result < 0) }

def writerStep (state : State) : State :=
  match state.input with
  | chunk :: rest =>
      onStdin { state with
        input := rest
        writeBuf := memcpy state.writeBuf 0 chunk.bytes chunk.inside } chunk.bytes.length
  | [] =>
      match state.ending with
      | none => onStdin state 0
      | some _ => onStdin { state with stdinFailed := true } (-1)

def showLine (state : State) : State :=
  match string 0 state.readBuf with
  | none => { state with reader := .wild }
  | some line => { state with stdout := state.stdout ++ line }

/-- `read_char = (read(..) > 0)` as the test of the loop of `fifo_read`, and what follows it. -/
def onFifo (state : State) (result : Int) : State :=
  let readChar : Nat := if 0 < result then 1 else 0
  if readChar ≠ 0 then showLine state
  else { state with reader := .exited (decide ¬ readChar < 0) }

/-- What a `read` of the FIFO can return that asks for so many bytes: it waits for data as long
as `fifo_write` has the FIFO open. -/
def Gives (state : State) (asked count : Nat) : Prop :=
  count ≤ asked ∧ count ≤ state.pipe.length ∧
    (count = 0 → asked = 0 ∨ state.pipe = [] ∧ state.writer ≠ .running)

instance (state : State) (asked count : Nat) : Decidable (Gives state asked count) :=
  inferInstanceAs (Decidable (_ ∧ _))

def filled (state : State) (count : Nat) (inside : 0 + (state.pipe.take count).length ≤ maxSize) :
    State :=
  { state with
    readBuf := memcpy state.readBuf 0 (state.pipe.take count) inside
    pipe := state.pipe.drop count
    reads := if 0 < count then state.reads ++ [count] else state.reads }

/-- The length that `read` is given is `strlen(buf)`. -/
def readerStep (state : State) (answer : Except Errno Nat) : Option State :=
  match strlen 0 state.readBuf with
  | none => some { state with reader := .wild }
  | some asked =>
      match answer with
      | .ok count =>
          if inside : 0 + (state.pipe.take count).length ≤ maxSize then
            if Gives state asked count then some (onFifo (filled state count inside) count)
            else none
          else none
      | .error _ => some (onFifo { state with fifoFailed := true } (-1))

/-- A process that has ended gives `none`, as does an answer that `read` cannot have. -/
def next (state : State) : Label → Option State
  | .writer => if state.writer = .running then some (writerStep state) else none
  | .reader answer => if state.reader = .running then readerStep state answer else none

def boot (chunks : List Chunk) (ending : Option Errno) (writeBuf readBuf : Buffer) : State where
  input := chunks
  ending := ending
  writeBuf := writeBuf
  writer := .running
  stdinFailed := false
  pipe := []
  readBuf := readBuf
  reader := .running
  fifoFailed := false
  reads := []
  stdout := []

/-- Both programs have ended, or one of them has left its array. -/
def Final (state : State) : Prop :=
  state.writer = .wild ∨ state.reader = .wild ∨
    state.writer ≠ .running ∧ state.reader ≠ .running

instance (state : State) : Decidable (Final state) := inferInstanceAs (Decidable (_ ∨ _))

/-- What `fifo_write` reads from stdin when no `read` fails. -/
def stdin (chunks : List Chunk) : List Byte := (chunks.map Chunk.bytes).flatten

/-- A run of the two programs that moves stdin to stdout, and that takes the error exit of a
program whose `read` has failed. -/
structure Faithful (chunks : List Chunk) (final : State) : Prop where
  inside : final.writer ≠ .wild ∧ final.reader ≠ .wild
  moved : final.stdinFailed = false → final.fifoFailed = false → final.stdout = stdin chunks
  stdinError : final.stdinFailed = true → final.writer = .exited false
  fifoError : final.fifoFailed = true → final.reader = .exited false

/-! ## One step of each program -/

def line (chunk : Chunk) : List Byte := text 0 chunk.bytes

def forwarded (chunks : List Chunk) : List Byte := (chunks.map line).flatten

theorem size_t_of_length {length : Nat} (short : length ≤ maxSize) : sizeT length = length := by
  unfold sizeT
  unfold maxSize at short
  omega

theorem on_stdin_zero (state : State) : onStdin state 0 = { state with writer := .exited true } :=
  rfl

/-- The result -1 is not seen as an error but used as an index. -/
theorem on_stdin_error (state : State) : onStdin state (-1) = { state with writer := .wild } := by
  have huge : sizeT (-1) = 2 ^ 64 - 1 := by decide
  have outside : ¬ 2 ^ 64 - 1 + 1 ≤ maxSize := by decide
  rw [onStdin, huge, if_pos (by decide), sendLine, dif_neg outside]

theorem on_stdin_chunk (state : State) (chunk : Chunk) :
    ∃ writeBuf, onStdin { state with
        writeBuf := memcpy state.writeBuf 0 chunk.bytes chunk.inside } chunk.bytes.length =
      if line chunk ≠ [] ∧ state.reader ≠ .running then
        { state with writeBuf := writeBuf, writer := .killed }
      else { state with writeBuf := writeBuf, pipe := state.pipe ++ line chunk } := by
  have bounded := chunk.bounded
  have short : chunk.bytes.length ≤ maxSize := by omega
  have positive : 0 < chunk.bytes.length := List.length_pos_iff.mpr chunk.nonempty
  have inside : chunk.bytes.length + 1 ≤ maxSize := by
    unfold maxSize at bounded ⊢
    omega
  have cells : (memcpy (memcpy state.writeBuf 0 chunk.bytes chunk.inside) chunk.bytes.length [0]
      inside).toList = chunk.bytes ++ 0 :: (state.writeBuf.toList.drop chunk.bytes.length).drop 1 := by
    rw [memcpy, List.Vector.toList_mk, memcpy_cells, overlay, List.take_left' rfl,
      List.drop_append, List.drop_eq_nil_of_le (by simp)]
    simp
  have shown : string 0 (memcpy (memcpy state.writeBuf 0 chunk.bytes chunk.inside)
      chunk.bytes.length [0] inside) = some (line chunk) := by
    rw [string_eq_some, cells, text_append_nul]
    exact ⟨List.mem_append_right _ List.mem_cons_self, rfl⟩
  refine ⟨memcpy (memcpy state.writeBuf 0 chunk.bytes chunk.inside) chunk.bytes.length [0] inside,
    ?_⟩
  rw [onStdin, size_t_of_length short, if_pos positive, sendLine, dif_pos inside]
  simp only [shown]

/-- Everything a step of `fifo_write` can do. -/
theorem writer_cases (state : State) :
    (∃ chunk rest writeBuf, state.input = chunk :: rest ∧ line chunk ≠ [] ∧
        state.reader ≠ .running ∧
        writerStep state = { state with input := rest, writeBuf := writeBuf, writer := .killed }) ∨
      (∃ chunk rest writeBuf, state.input = chunk :: rest ∧
        writerStep state =
          { state with input := rest, writeBuf := writeBuf, pipe := state.pipe ++ line chunk } ∧
        (line chunk = [] ∨ state.reader = .running)) ∨
      (state.input = [] ∧ state.ending = none ∧
        writerStep state = { state with writer := .exited true }) ∨
      (state.input = [] ∧ state.ending ≠ none ∧
        writerStep state = { state with stdinFailed := true, writer := .wild }) := by
  rcases more : state.input with _ | ⟨chunk, rest⟩
  · rcases fails : state.ending with _ | reason
    · refine Or.inr (Or.inr (Or.inl ⟨rfl, rfl, ?_⟩))
      simp only [writerStep, more, fails, on_stdin_zero]
    · refine Or.inr (Or.inr (Or.inr ⟨rfl, Option.some_ne_none reason, ?_⟩))
      simp only [writerStep, more, fails, on_stdin_error]
  · obtain ⟨writeBuf, result⟩ := on_stdin_chunk { state with input := rest } chunk
    have step : writerStep state = onStdin { state with
        input := rest
        writeBuf := memcpy state.writeBuf 0 chunk.bytes chunk.inside } chunk.bytes.length := by
      simp only [writerStep, more]
    rw [step, result]
    by_cases broken : line chunk ≠ [] ∧ state.reader ≠ .running
    · rw [if_pos broken]
      exact Or.inl ⟨chunk, rest, writeBuf, rfl, broken.1, broken.2, rfl⟩
    · rw [if_neg broken]
      rw [Classical.not_and_iff_not_or_not, Classical.not_not, Classical.not_not] at broken
      exact Or.inr (Or.inl ⟨chunk, rest, writeBuf, rfl, rfl, broken⟩)

theorem on_fifo_ended (state : State) {result : Int} (ended : result ≤ 0) :
    onFifo state result = { state with reader := .exited true } := by
  have notPositive : ¬ 0 < result := by omega
  simp [onFifo, notPositive]

theorem on_fifo_data (state : State) {result : Int} (data : 0 < result) :
    onFifo state result = showLine state := by
  simp [onFifo, data]

theorem memcpy_nil {Cell : Type*} {capacity : Nat} (array : List.Vector Cell capacity)
    (inside : 0 + ([] : List Cell).length ≤ capacity) : memcpy array 0 [] inside = array := by
  apply List.Vector.eq
  rw [memcpy_cells]
  rfl

/-- Everything a step of `fifo_read` can do while `strlen(buf)` is defined. -/
theorem reader_cases {state after : State} {answer : Except Errno Nat}
    (member : 0 ∈ state.readBuf.toList) (clean : 0 ∉ state.pipe)
    (result : readerStep state answer = some after) :
    (∃ count readBuf, answer = .ok count ∧ 0 < count ∧
        count ≤ (text 0 state.readBuf.toList).length ∧ count ≤ state.pipe.length ∧
        0 ∈ readBuf.toList ∧
        text 0 readBuf.toList = overlay (text 0 state.readBuf.toList) (state.pipe.take count) ∧
        after = { state with
          readBuf := readBuf
          pipe := state.pipe.drop count
          reads := state.reads ++ [count]
          stdout := state.stdout ++ text 0 readBuf.toList }) ∨
      (answer = .ok 0 ∧ ((text 0 state.readBuf.toList).length = 0 ∨
          state.pipe = [] ∧ state.writer ≠ .running) ∧
        after = { state with reader := .exited true }) ∨
      ∃ reason, answer = .error reason ∧
        after = { state with fifoFailed := true, reader := .exited true } := by
  unfold readerStep at result
  rw [strlen_of_mem member] at result
  cases answer with
  | error reason =>
      refine Or.inr (Or.inr ⟨reason, rfl, ?_⟩)
      rw [← Option.some.inj result, on_fifo_ended _ (by decide)]
  | ok count =>
      simp only at result
      split at result
      case isFalse => cases result
      case isTrue inside =>
        split at result
        case isFalse => cases result
        case isTrue gives =>
          obtain ⟨asked, available, ended⟩ := gives
          rw [Option.some.injEq] at result
          by_cases nothing : count = 0
          · subst nothing
            refine Or.inr (Or.inl ⟨rfl, ended rfl, ?_⟩)
            rw [← result, on_fifo_ended _ (by decide)]
            simp [filled, memcpy_nil]
          · have positive : 0 < count := by omega
            have length : (state.pipe.take count).length = count := by
              rw [List.length_take, Nat.min_eq_left available]
            have free : 0 ∉ state.pipe.take count := fun zero => clean (List.mem_of_mem_take zero)
            obtain ⟨still, shown⟩ := text_overlay member free (length.trans_le asked)
            rw [← memcpy_cells _ inside] at still shown
            refine Or.inl ⟨count, memcpy state.readBuf 0 (state.pipe.take count) inside, rfl,
              positive, asked, available, still, shown, ?_⟩
            have shows : string 0 (filled state count inside).readBuf =
                some (text 0 (memcpy state.readBuf 0 (state.pipe.take count) inside).toList) :=
              string_eq_some.mpr ⟨still, rfl⟩
            rw [← result, on_fifo_data _ (by omega)]
            simp only [showLine, shows]
            simp only [filled, if_pos positive]

end LinuxSystemPrograms.FifoPipe
