import LinuxSystemPrograms.FifoPipe
import Mathlib.Algebra.Order.BigOperators.Group.List
import Mathlib.Algebra.Order.Group.Nat
import Mathlib.Algebra.GroupWithZero.Nat

/-!
# When the FIFO programs are a pipe

`fifo_read` writes as many bytes for each `read` as its buffer was a string of at the start,
and `fifo_write` sends no zero byte. So the bytes come out right exactly when there is no zero
among them and every `read` returns all that it was asked for.
-/

namespace LinuxSystemPrograms.FifoPipeFaithful

open LinuxSystemPrograms.CharArray
open LinuxSystemPrograms.CString
open LinuxSystemPrograms.FifoPipe
open LinuxSystemPrograms.Sockets
open LinuxSystemPrograms.Transition

set_option autoImplicit false

/-! ## Every run -/

inductive Writing (chunks : List Chunk) (asked : Nat) (state : State) : Prop where
  | running (place : state.writer = .running) (fine : state.stdinFailed = false)
  | exited (place : state.writer = .exited true) (fine : state.stdinFailed = false)
      (all : state.input = []) (eof : state.ending = none)
  | killed (place : state.writer = .killed) (fine : state.stdinFailed = false)
      (some : chunks ≠ []) (gone : state.reader ≠ .running)
      (early : state.fifoFailed = true ∨ asked = 0)
  | wild (place : state.writer = .wild) (failed : state.stdinFailed = true)
      (fails : state.ending ≠ none)

inductive Reading (asked : Nat) (state : State) : Prop where
  | running (place : state.reader = .running) (fine : state.fifoFailed = false)
  | exited (place : state.reader = .exited true)
      (reason : state.fifoFailed = true ∨ asked = 0 ∨ state.pipe = [] ∧ state.writer ≠ .running)

/-- The text of `buf` keeps its length `asked`, so that every read makes `fifo_read` write so
many bytes. -/
structure Showing (asked : Nat) (readBuf : Buffer) (reads : List Nat) (stdout : List Byte) :
    Prop where
  terminated : 0 ∈ readBuf.toList
  length : (text 0 readBuf.toList).length = asked
  volume : stdout.length = asked * reads.length
  free : 0 ∉ stdout
  within : ∀ count ∈ reads, 0 < count ∧ count ≤ asked

/-- `received` is what the reads of the FIFO have returned. -/
structure Piped (chunks : List Chunk) (asked : Nat) (state : State) : Prop where
  showing : Showing asked state.readBuf state.reads state.stdout
  clean : 0 ∉ state.pipe
  conveyed : ∃ done received, chunks = done ++ state.input ∧
    (state.writer ≠ .killed → forwarded done = received ++ state.pipe) ∧
    received.length = state.reads.sum ∧
    ((∀ count ∈ state.reads, count = asked) → state.stdout = received)
  writing : Writing chunks asked state
  reading : Reading asked state

theorem forwarded_concat (done : List Chunk) (chunk : Chunk) :
    forwarded (done ++ [chunk]) = forwarded done ++ line chunk := by
  simp [forwarded]

section Runs

variable {chunks : List Chunk} {asked : Nat} {state after : State}

theorem boot_piped {readBuf : Buffer} (terminated : 0 ∈ readBuf.toList)
    (length : (text 0 readBuf.toList).length = asked) (chunks : List Chunk)
    (ending : Option Errno) (writeBuf : Buffer) :
    Piped chunks asked (boot chunks ending writeBuf readBuf) where
  showing := by
    refine ⟨terminated, length, rfl, List.not_mem_nil, ?_⟩
    intro count member
    cases member
  clean := List.not_mem_nil
  conveyed := ⟨[], [], rfl, fun _ => rfl, rfl, fun _ => rfl⟩
  writing := .running rfl rfl
  reading := .running rfl rfl

/-- While `fifo_write` runs, `fifo_read` ends only for a reason that stays. -/
theorem Piped.early (piped : Piped chunks asked state) (busy : state.writer = .running) :
    state.reader = .running ∧ state.fifoFailed = false ∨
      state.reader = .exited true ∧ (state.fifoFailed = true ∨ asked = 0) := by
  cases piped.reading with
  | running place fine => exact Or.inl ⟨place, fine⟩
  | exited place reason =>
      rcases reason with failed | nothing | ended
      · exact Or.inr ⟨place, Or.inl failed⟩
      · exact Or.inr ⟨place, Or.inr nothing⟩
      · exact absurd busy ended.2

theorem Piped.fine (piped : Piped chunks asked state) (busy : state.writer = .running) :
    state.stdinFailed = false := by
  cases piped.writing with
  | running _ fine => exact fine
  | exited _ fine => exact fine
  | killed _ fine => exact fine
  | wild place => rw [busy] at place; cases place

theorem not_killed_of_running (busy : state.writer = .running) : state.writer ≠ .killed := by
  rw [busy]
  exact Process.noConfusion

/-- `fifo_read` stands as it did when only the side of `fifo_write` moves. -/
theorem Piped.reading_still {now : State} (piped : Piped chunks asked state)
    (busy : state.writer = .running) (reader : now.reader = state.reader)
    (failed : now.fifoFailed = state.fifoFailed) : Reading asked now := by
  rcases piped.early busy with ⟨place, fine⟩ | ⟨place, early⟩
  · exact .running (reader.trans place) (failed.trans fine)
  · rw [← failed] at early
    exact .exited (reader.trans place) (early.imp_right Or.inl)

/-- The end of `fifo_write` leaves every byte where it is. -/
theorem Piped.writer_stops {place : Process} {failed : Bool} (piped : Piped chunks asked state)
    (busy : state.writer = .running)
    (writing : Writing chunks asked { state with writer := place, stdinFailed := failed }) :
    Piped chunks asked { state with writer := place, stdinFailed := failed } := by
  obtain ⟨done, received, split, pending, rest⟩ := piped.conveyed
  constructor
  case showing => exact piped.showing
  case clean => exact piped.clean
  case conveyed => exact ⟨done, received, split, fun _ => pending (not_killed_of_running busy), rest⟩
  case writing => exact writing
  case reading => exact piped.reading_still busy rfl rfl

theorem writer_piped (piped : Piped chunks asked state) (busy : state.writer = .running) :
    Piped chunks asked (writerStep state) := by
  obtain ⟨done, received, split, pending, total, shown⟩ := piped.conveyed
  rcases writer_cases state with
    ⟨chunk, rest, writeBuf, more, _, gone, step⟩ | ⟨chunk, rest, writeBuf, more, step, _⟩ |
      ⟨noMore, eof, step⟩ | ⟨noMore, fails, step⟩
  · have own : chunks = done ++ [chunk] ++ rest := by rw [split, more, List.append_cons]
    have early := ((piped.early busy).resolve_left fun here => gone here.1).2
    rw [step]
    constructor
    case showing => exact piped.showing
    case clean => exact piped.clean
    case conveyed => exact ⟨done ++ [chunk], received, own, absurd rfl, total, shown⟩
    case writing => exact .killed rfl (piped.fine busy) (by rw [own]; simp) gone early
    case reading => exact piped.reading_still busy rfl rfl
  · have own : chunks = done ++ [chunk] ++ rest := by rw [split, more, List.append_cons]
    rw [step]
    constructor
    case showing => exact piped.showing
    case clean =>
      rw [List.mem_append, not_or]
      exact ⟨piped.clean, not_mem_text 0 chunk.bytes⟩
    case conveyed =>
      refine ⟨done ++ [chunk], received, own, ?_, total, shown⟩
      intro _
      rw [forwarded_concat, pending (not_killed_of_running busy), List.append_assoc]
    case writing => exact .running busy (piped.fine busy)
    case reading => exact piped.reading_still busy rfl rfl
  · rw [step]
    exact piped.writer_stops busy (.exited rfl (piped.fine busy) noMore eof)
  · rw [step]
    exact piped.writer_stops busy (.wild rfl rfl fails)

/-- `fifo_write` stands as it did when only the side of `fifo_read` moves. -/
theorem Writing.still {now : State} (writing : Writing chunks asked state)
    (here : state.reader = .running) (writer : now.writer = state.writer)
    (failed : now.stdinFailed = state.stdinFailed) (input : now.input = state.input)
    (ending : now.ending = state.ending) : Writing chunks asked now := by
  cases writing with
  | running place fine => exact .running (writer.trans place) (failed.trans fine)
  | exited place fine all eof =>
      exact .exited (writer.trans place) (failed.trans fine) (input.trans all) (ending.trans eof)
  | killed _ _ _ gone => exact absurd here gone
  | wild place broken fails =>
      rw [← ending] at fails
      exact .wild (writer.trans place) (failed.trans broken) fails

/-- The end of `fifo_read` leaves every byte where it is. -/
theorem Piped.reader_stops {failed : Bool} (piped : Piped chunks asked state)
    (here : state.reader = .running)
    (reading : Reading asked { state with reader := .exited true, fifoFailed := failed }) :
    Piped chunks asked { state with reader := .exited true, fifoFailed := failed } := by
  constructor
  case showing => exact piped.showing
  case clean => exact piped.clean
  case conveyed => exact piped.conveyed
  case writing => exact piped.writing.still here rfl rfl rfl rfl
  case reading => exact reading

theorem reader_piped {answer : Except Errno Nat} (piped : Piped chunks asked state)
    (here : state.reader = .running) (result : readerStep state answer = some after) :
    Piped chunks asked after := by
  obtain ⟨done, received, split, pending, total, shown⟩ := piped.conveyed
  obtain ⟨terminated, length, volume, free, within⟩ := piped.showing
  rcases reader_cases terminated piped.clean result with
    ⟨count, readBuf, _, positive, bounded, available, still, laid, rfl⟩ | ⟨_, ended, rfl⟩ |
      ⟨reason, _, rfl⟩
  · have taken : (state.pipe.take count).length = count := by
      rw [List.length_take, Nat.min_eq_left available]
    have short : (state.pipe.take count).length ≤ (text 0 state.readBuf.toList).length := by
      rwa [taken]
    have same : (text 0 readBuf.toList).length = asked := by
      rw [laid, overlay_length_of_le short, length]
    constructor
    case showing =>
      refine ⟨still, same, ?_, ?_, ?_⟩
      · rw [List.length_append, volume, same, List.length_append, List.length_singleton,
          Nat.mul_succ]
      · rw [List.mem_append, not_or]
        exact ⟨free, not_mem_text 0 readBuf.toList⟩
      · intro other member
        rcases List.mem_append.mp member with earlier | last
        · exact within other earlier
        · rw [List.mem_singleton.mp last, ← length]
          exact ⟨positive, bounded⟩
    case clean => exact fun member => piped.clean (List.mem_of_mem_drop member)
    case conveyed =>
      refine ⟨done, received ++ state.pipe.take count, split, ?_, ?_, ?_⟩
      · intro notKilled
        rw [List.append_assoc, List.take_append_drop]
        exact pending notKilled
      · rw [List.length_append, total, taken, List.sum_append, List.sum_singleton]
      · intro full
        rw [List.forall_mem_append, List.forall_mem_singleton] at full
        have exactly : overlay (text 0 state.readBuf.toList) (state.pipe.take count) =
            state.pipe.take count := by
          rw [overlay_eq_right, length, taken, full.2]
        rw [shown full.1, laid, exactly]
    case writing => exact piped.writing.still here rfl rfl rfl rfl
    case reading =>
      cases piped.reading with
      | running place fine => exact .running place fine
      | exited place => rw [here] at place; cases place
  · rw [length] at ended
    exact piped.reader_stops here (.exited rfl (Or.inr ended))
  · exact piped.reader_stops here (.exited rfl (Or.inl rfl))

theorem next_piped {label : Label} (piped : Piped chunks asked state)
    (result : next state label = some after) : Piped chunks asked after := by
  cases label with
  | writer =>
      simp only [next, Option.ite_none_right_eq_some, Option.some.injEq] at result
      obtain ⟨busy, rfl⟩ := result
      exact writer_piped piped busy
  | reader answer =>
      simp only [next, Option.ite_none_right_eq_some] at result
      exact reader_piped piped result.1 result.2

/-! ## What the reads of the FIFO have returned -/

def returned (labels : List Label) : List Nat :=
  labels.filterMap fun label =>
    match label with
    | .reader (.ok count) => if 0 < count then some count else none
    | _ => none

theorem mem_returned {labels : List Label} {count : Nat} :
    count ∈ returned labels ↔ 0 < count ∧ Label.reader (.ok count) ∈ labels := by
  rw [returned, List.mem_filterMap]
  constructor
  · rintro ⟨label, member, found⟩
    split at found
    · rw [Option.ite_none_right_eq_some, Option.some.injEq] at found
      rw [← found.2]
      exact ⟨found.1, member⟩
    · cases found
  · rintro ⟨positive, member⟩
    exact ⟨_, member, if_pos positive⟩

/-- `fifo_write` does not touch the side of `fifo_read`, nor what its own last `read` returns. -/
theorem writer_frame (state : State) :
    (writerStep state).reader = state.reader ∧
      (writerStep state).readBuf = state.readBuf ∧
      (writerStep state).reads = state.reads ∧
      (writerStep state).fifoFailed = state.fifoFailed ∧
      (writerStep state).ending = state.ending := by
  rcases writer_cases state with
    ⟨_, _, _, _, _, _, step⟩ | ⟨_, _, _, _, step, _⟩ | ⟨_, _, step⟩ | ⟨_, _, step⟩
  · rw [step]
    exact ⟨rfl, rfl, rfl, rfl, rfl⟩
  · rw [step]
    exact ⟨rfl, rfl, rfl, rfl, rfl⟩
  · rw [step]
    exact ⟨rfl, rfl, rfl, rfl, rfl⟩
  · rw [step]
    exact ⟨rfl, rfl, rfl, rfl, rfl⟩

theorem next_log {label : Label} (piped : Piped chunks asked state)
    (result : next state label = some after) :
    after.reads = state.reads ++ returned [label] ∧
      (after.fifoFailed = true ↔
        state.fifoFailed = true ∨ ∃ reason, label = .reader (.error reason)) ∧
      after.ending = state.ending := by
  cases label with
  | writer =>
      simp only [next, Option.ite_none_right_eq_some, Option.some.injEq] at result
      obtain ⟨_, rfl⟩ := result
      obtain ⟨_, _, reads, failed, ending⟩ := writer_frame state
      simp [reads, failed, ending, returned]
  | reader answer =>
      simp only [next, Option.ite_none_right_eq_some] at result
      rcases reader_cases piped.showing.terminated piped.clean result.2 with
        ⟨count, readBuf, rfl, positive, _, _, _, _, rfl⟩ | ⟨rfl, _, rfl⟩ | ⟨reason, rfl, rfl⟩
      · simp [returned, positive]
      · simp [returned]
      · simp [returned]

theorem run_log {labels : List Label} {final : State} (piped : Piped chunks asked state)
    (result : run next state labels = some final) :
    final.reads = state.reads ++ returned labels ∧
      (final.fifoFailed = true ↔
        state.fifoFailed = true ∨ ∃ reason, Label.reader (.error reason) ∈ labels) ∧
      final.ending = state.ending := by
  induction labels generalizing state with
  | nil =>
      rw [run, Option.some.injEq] at result
      simp [← result, returned]
  | cons label rest ih =>
      rw [run, Option.bind_eq_some_iff] at result
      obtain ⟨middle, stepped, remaining⟩ := result
      obtain ⟨reads, failed, ending⟩ := next_log piped stepped
      obtain ⟨laterReads, laterFailed, laterEnding⟩ := ih (next_piped piped stepped) remaining
      refine ⟨?_, ?_, laterEnding.trans ending⟩
      · rw [laterReads, reads, List.append_assoc, returned, returned, returned,
          ← List.filterMap_append, List.singleton_append]
      · rw [laterFailed, failed, or_assoc]
        apply or_congr_right
        simp only [List.mem_cons, exists_or]
        apply or_congr_left
        exact exists_congr fun reason => eq_comm

end Runs

/-! ## When stdin reaches stdout -/

/-- Reads that return at most `asked` and together as much as if each returned `asked`. -/
theorem all_full_of_sum {asked : Nat} {counts : List Nat} (within : ∀ count ∈ counts, count ≤ asked)
    (total : counts.sum = asked * counts.length) : ∀ count ∈ counts, count = asked := by
  induction counts with
  | nil =>
      intro count member
      cases member
  | cons first rest ih =>
      rw [List.forall_mem_cons] at within
      have bound : rest.sum ≤ asked * rest.length := by
        rw [Nat.mul_comm]
        exact List.sum_le_card_nsmul rest asked within.2
      rw [List.sum_cons, List.length_cons, Nat.mul_succ] at total
      rw [List.forall_mem_cons]
      exact ⟨by omega, ih within.2 (by omega)⟩

theorem forwarded_of_nul_free {chunks : List Chunk} (free : 0 ∉ stdin chunks) :
    forwarded chunks = stdin chunks := by
  have same : ∀ chunk ∈ chunks, line chunk = chunk.bytes := by
    intro chunk member
    rw [line, text_eq_self_iff]
    intro zero
    exact free (List.mem_flatten_of_mem (List.mem_map_of_mem member) zero)
  rw [forwarded, List.map_congr_left same, stdin]

theorem stdin_eq_nil {chunks : List Chunk} : stdin chunks = [] ↔ chunks = [] := by
  cases chunks with
  | nil => simp [stdin]
  | cons chunk rest => simp [stdin, chunk.nonempty]

section Outcome

variable {chunks : List Chunk} {asked : Nat} {state : State}

/-- Both programs have ended without a failed `read`. -/
structure Quiet (state : State) : Prop where
  all : state.input = []
  eof : state.ending = none
  writer : state.writer = .exited true
  reader : state.reader = .exited true
  stdinFine : state.stdinFailed = false
  fifoFine : state.fifoFailed = false

theorem Piped.reader_cases_final (piped : Piped chunks asked state) (final : Final state)
    (inside : state.writer ≠ .wild) : state.writer ≠ .running ∧ state.reader = .exited true := by
  have tame : state.reader ≠ .wild := by
    cases piped.reading with
    | running place => rw [place]; exact Process.noConfusion
    | exited place => rw [place]; exact Process.noConfusion
  obtain ⟨writer, reader⟩ := (final.resolve_left inside).resolve_left tame
  cases piped.reading with
  | running place => exact absurd place reader
  | exited place => exact ⟨writer, place⟩

/-- What has gone through the FIFO when both programs have ended quietly. -/
theorem Piped.quiet_volume (piped : Piped chunks asked state) (quiet : Quiet state)
    (used : asked ≠ 0) :
    (forwarded chunks).length = state.reads.sum ∧
      ((∀ count ∈ state.reads, count = asked) → state.stdout = forwarded chunks) := by
  obtain ⟨done, received, split, pending, total, shown⟩ := piped.conveyed
  have notKilled : state.writer ≠ .killed := by
    rw [quiet.writer]
    exact Process.noConfusion
  have empty : state.pipe = [] := by
    cases piped.reading with
    | running place => rw [quiet.reader] at place; cases place
    | exited _ reason =>
        rcases reason with failed | nothing | ended
        · rw [quiet.fifoFine] at failed
          cases failed
        · exact absurd nothing used
        · exact ended.1
  rw [quiet.all, List.append_nil] at split
  have whole := pending notKilled
  rw [empty, List.append_nil, ← split] at whole
  rw [whole]
  exact ⟨total, shown⟩

/-- Nothing has been read from a FIFO into which nothing was written. -/
theorem Piped.stdout_of_empty (piped : Piped [] asked state) (quiet : Quiet state) :
    state.stdout = [] := by
  apply List.eq_nil_of_length_eq_zero
  rw [piped.showing.volume]
  by_cases used : asked = 0
  · rw [used, Nat.zero_mul]
  · have none : state.reads.sum = 0 := (piped.quiet_volume quiet used).1.symm
    have empty : state.reads = [] := by
      apply List.eq_nil_iff_forall_not_mem.mpr
      intro count member
      have positive := (piped.showing.within count member).1
      have bounded := List.le_sum_of_mem member
      omega
    rw [empty, List.length_nil, Nat.mul_zero]

/-- Two programs that have ended without an error are quiet, unless `fifo_write` was killed
because `fifo_read` asks for nothing. -/
theorem Piped.quiet_or_unread (piped : Piped chunks asked state) (final : Final state)
    (inside : state.writer ≠ .wild) (fifoFine : state.fifoFailed = false) :
    Quiet state ∨ state.stdinFailed = false ∧ chunks ≠ [] ∧ asked = 0 := by
  obtain ⟨ended, reader⟩ := piped.reader_cases_final final inside
  cases piped.writing with
  | running place => exact absurd place ended
  | exited place fine all eof => exact Or.inl ⟨all, eof, place, reader, fine, fifoFine⟩
  | killed place fine some gone early =>
      rw [fifoFine] at early
      exact Or.inr ⟨fine, some, early.resolve_left Bool.noConfusion⟩
  | wild place => exact absurd place inside

theorem Piped.quiet_of_faithful (piped : Piped chunks asked state) (final : Final state)
    (faithful : Faithful chunks state) : Quiet state := by
  obtain ⟨ended, reader⟩ := piped.reader_cases_final final faithful.inside.1
  have fifoFine : state.fifoFailed = false := by
    by_contra failed
    rw [Bool.not_eq_false] at failed
    have exit := faithful.fifoError failed
    rw [reader] at exit
    cases exit
  rcases piped.quiet_or_unread final faithful.inside.1 fifoFine with
    quiet | ⟨fine, some, unused⟩
  · exact quiet
  · have moved := faithful.moved fine fifoFine
    have volume := piped.showing.volume
    rw [unused, Nat.zero_mul, List.length_eq_zero_iff, moved, stdin_eq_nil] at volume
    exact absurd volume some

theorem Piped.quiet_of_fine (piped : Piped chunks asked state) (final : Final state)
    (eof : state.ending = none) (fifoFine : state.fifoFailed = false)
    (used : chunks = [] ∨ 0 < asked) : Quiet state := by
  have inside : state.writer ≠ .wild := by
    intro wild
    cases piped.writing with
    | running place => rw [wild] at place; cases place
    | exited place => rw [wild] at place; cases place
    | killed place => rw [wild] at place; cases place
    | wild _ _ fails => exact fails eof
  rcases piped.quiet_or_unread final inside fifoFine with quiet | ⟨_, some, unused⟩
  · exact quiet
  · have positive := used.resolve_left some
    omega

theorem Quiet.faithful_iff (quiet : Quiet state) :
    Faithful chunks state ↔ state.stdout = stdin chunks := by
  constructor
  · intro faithful
    exact faithful.moved quiet.stdinFine quiet.fifoFine
  · intro moved
    constructor
    case inside =>
      rw [quiet.writer, quiet.reader]
      exact ⟨Process.noConfusion, Process.noConfusion⟩
    case moved => exact fun _ _ => moved
    case stdinError => simp [quiet.stdinFine]
    case fifoError => simp [quiet.fifoFine]

/-- With both programs ended quietly, the bytes are right exactly when no zero is among them
and every read of the FIFO has returned all that it asked for. -/
theorem Piped.moved_iff (piped : Piped chunks asked state) (quiet : Quiet state) :
    state.stdout = stdin chunks ↔
      0 ∉ stdin chunks ∧ (chunks = [] ∨ 0 < asked ∧ ∀ count ∈ state.reads, count = asked) := by
  constructor
  · intro moved
    have free : 0 ∉ stdin chunks := by
      rw [← moved]
      exact piped.showing.free
    refine ⟨free, ?_⟩
    by_cases some : chunks = []
    · exact Or.inl some
    · have volume := piped.showing.volume
      rw [moved] at volume
      have used : asked ≠ 0 := by
        intro unused
        rw [unused, Nat.zero_mul, List.length_eq_zero_iff, stdin_eq_nil] at volume
        exact some volume
      have total := (piped.quiet_volume quiet used).1
      rw [forwarded_of_nul_free free, volume] at total
      exact Or.inr ⟨Nat.pos_of_ne_zero used, all_full_of_sum
        (fun count member => (piped.showing.within count member).2) total.symm⟩
  · rintro ⟨free, rfl | ⟨used, full⟩⟩
    · rw [piped.stdout_of_empty quiet]
      rfl
    · rw [(piped.quiet_volume quiet (by omega)).2 full, forwarded_of_nul_free free]

/-- `buf` of `fifo_read` is no string, and `strlen` leaves it at the first `read`. -/
structure Astray (state : State) : Prop where
  unterminated : 0 ∉ state.readBuf.toList
  reader : state.reader = .running ∨ state.reader = .wild

theorem next_astray {after : State} {label : Label} (astray : Astray state)
    (result : next state label = some after) : Astray after := by
  cases label with
  | writer =>
      simp only [next, Option.ite_none_right_eq_some, Option.some.injEq] at result
      obtain ⟨_, rfl⟩ := result
      obtain ⟨reader, readBuf, _⟩ := writer_frame state
      constructor
      case unterminated =>
        rw [readBuf]
        exact astray.unterminated
      case reader =>
        rw [reader]
        exact astray.reader
  | reader answer =>
      simp only [next, Option.ite_none_right_eq_some, readerStep,
        strlen_of_not_mem astray.unterminated, Option.some.injEq] at result
      rw [← result.2]
      exact ⟨astray.unterminated, Or.inr rfl⟩

theorem Astray.not_faithful (astray : Astray state) (final : Final state) :
    ¬ Faithful chunks state := by
  intro faithful
  have reader := ((final.resolve_left faithful.inside.1).resolve_left faithful.inside.2).2
  exact faithful.inside.2 (astray.reader.resolve_left reader)

end Outcome

/-- No `read` fails, stdin holds no zero byte, and `buf` of `fifo_read` is a string at the
start; if there is anything to move, it is as long as what each `read` of the FIFO returns. -/
structure Undamaged (chunks : List Chunk) (ending : Option Errno) (readBuf : Buffer)
    (labels : List Label) : Prop where
  eof : ending = none
  noError : ∀ reason, Label.reader (.error reason) ∉ labels
  free : 0 ∉ stdin chunks
  full : ∃ asked, strlen 0 readBuf = some asked ∧ (chunks = [] ∨ 0 < asked ∧
    ∀ count, 0 < count → Label.reader (.ok count) ∈ labels → count = asked)

/-- When two programs that have run to their ends have moved stdin to stdout. -/
theorem pipe_faithful_iff {chunks : List Chunk} {ending : Option Errno}
    {writeBuf readBuf : Buffer} {labels : List Label} {last : State}
    (result : run next (boot chunks ending writeBuf readBuf) labels = some last)
    (final : Final last) :
    Faithful chunks last ↔ Undamaged chunks ending readBuf labels := by
  by_cases terminated : 0 ∈ readBuf.toList
  · have asks := strlen_of_mem terminated
    have start := boot_piped terminated rfl chunks ending writeBuf
    have piped := run_keeps (fun _ _ _ => next_piped) start result
    obtain ⟨reads, failed, ends⟩ := run_log start result
    have fineIff : last.fifoFailed = false ↔ ∀ reason, Label.reader (.error reason) ∉ labels := by
      rw [← Bool.not_eq_true, failed]
      simp [boot]
    have fullIff : (∀ count ∈ last.reads, count = (text 0 readBuf.toList).length) ↔
        ∀ count, 0 < count → Label.reader (.ok count) ∈ labels →
          count = (text 0 readBuf.toList).length := by
      rw [reads]
      simp [boot, mem_returned]
    constructor
    · intro faithful
      have quiet := piped.quiet_of_faithful final faithful
      obtain ⟨free, full⟩ := (piped.moved_iff quiet).mp (quiet.faithful_iff.mp faithful)
      rw [fullIff] at full
      exact ⟨ends.symm.trans quiet.eof, fineIff.mp quiet.fifoFine, free, _, asks, full⟩
    · intro undamaged
      obtain ⟨asked, found, full⟩ := undamaged.full
      rw [asks, Option.some.injEq] at found
      subst found
      have quiet := piped.quiet_of_fine final (ends.trans undamaged.eof)
        (fineIff.mpr undamaged.noError) (full.imp_right And.left)
      rw [← fullIff] at full
      exact quiet.faithful_iff.mpr ((piped.moved_iff quiet).mpr ⟨undamaged.free, full⟩)
  · have start : Astray (boot chunks ending writeBuf readBuf) := ⟨terminated, Or.inl rfl⟩
    have astray := run_keeps (fun _ _ _ => next_astray) start result
    constructor
    · exact fun faithful => absurd faithful (astray.not_faithful final)
    · intro undamaged
      obtain ⟨asked, found, _⟩ := undamaged.full
      rw [strlen_of_not_mem terminated] at found
      cases found

/-! ## Short runs -/

def oneByte : Chunk := ⟨[97], by decide, by decide⟩

def twoBytes : Chunk := ⟨[97, 98], by decide, by decide⟩

def zeros : Buffer := List.Vector.replicate maxSize 0

/-- A buffer in which the stack has left the string "xy". -/
def stale : Buffer := memcpy zeros 0 [120, 121] (by decide)

/-- Each `read` of the FIFO returns the two bytes that it asks for. -/
def fullReads : List Label :=
  [.writer, .reader (.ok 2), .writer, .reader (.ok 2), .writer, .reader (.ok 0)]

theorem pipe_faithful_iff_full_reads : ∃ last,
    run next (boot [twoBytes, twoBytes] none zeros stale) fullReads = some last ∧ Final last ∧
      (Faithful [twoBytes, twoBytes] last ↔
        Undamaged [twoBytes, twoBytes] none stale fullReads) := by
  have ends : ((run next (boot [twoBytes, twoBytes] none zeros stale) fullReads).any
      fun last => Final last) = true := by decide +kernel
  obtain ⟨last, result, test⟩ := (Option.any_eq_true _ _).mp ends
  have final := of_decide_eq_true test
  exact ⟨last, result, final, pipe_faithful_iff result final⟩

/-- From a cleared buffer `fifo_read` asks for no byte, and takes the answer for the end. -/
theorem cleared_buffer_shows_nothing : ¬ ∀ (chunks : List Chunk) (ending : Option Errno)
    (writeBuf readBuf : Buffer) (labels : List Label) (last : State),
    run next (boot chunks ending writeBuf readBuf) labels = some last → Final last →
      Faithful chunks last := by
  intro always
  have ends : ((run next (boot [oneByte] none zeros zeros)
      [.writer, .writer, .reader (.ok 0)]).any fun last =>
        Final last ∧ last.stdinFailed = false ∧ last.fifoFailed = false ∧ last.stdout = []) =
      true := by decide +kernel
  obtain ⟨last, result, test⟩ := (Option.any_eq_true _ _).mp ends
  obtain ⟨final, stdinFine, fifoFine, nothing⟩ := of_decide_eq_true test
  have moved := (always _ _ _ _ _ last result final).moved stdinFine fifoFine
  rw [nothing] at moved
  exact absurd moved (by decide)

end LinuxSystemPrograms.FifoPipeFaithful
