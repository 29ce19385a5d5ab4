import LinuxSystemPrograms.RwLock
import LinuxSystemPrograms.Transition
import Mathlib.Algebra.Order.BigOperators.Group.Finset
import Mathlib.Data.Fintype.BigOperators
import Mathlib.Tactic.SplitIfs

/-!
# `wr_rd_lock.c`

One writer, any number of readers. `config += 10` and the argument of each `printf` are
accesses of their own, so that only the lock keeps a reader from coming between an update
and the line that reports it. `replay` is what the lines have to look like if the
operations happen one at a time in the order of the lines.
-/

namespace LinuxSystemPrograms.WrRdLock

open LinuxSystemPrograms.RwLock
open LinuxSystemPrograms.Transition

set_option autoImplicit false

def readers : Nat := 3

def updates : Nat := 5

inductive Party (size : Nat) where
  | writer
  | reader (id : Fin size)
  deriving DecidableEq, Repr

inductive WriterPlace where
  | wrlock
  | load
  | store (register : Nat)
  | fetch
  | print (value : Nat)
  | unlock
  deriving DecidableEq, Repr

structure Writer where
  i : Nat
  place : WriterPlace
  deriving DecidableEq, Repr

inductive ReaderPlace where
  | rdlock
  | fetch
  | print (value : Nat)
  | unlock
  | returned
  deriving DecidableEq, Repr

inductive Line (size : Nat) where
  | updated (config : Nat)
  | read (id : Fin size) (config : Nat)
  deriving DecidableEq, Repr

/-- `finished` says that `main` is past its joins. -/
structure State (size : Nat) where
  config : Nat
  rwlock : Lock (Party size)
  writer : Writer
  reader : Fin size → ReaderPlace
  output : List (Line size)
  finished : Bool

inductive Label (size : Nat) where
  | thread (party : Party size)
  | main
  deriving DecidableEq, Repr

namespace State

variable {size : Nat}

def setReader (state : State size) (id : Fin size) (place : ReaderPlace) : State size :=
  { state with reader := Function.update state.reader id place }

end State

variable {size : Nat}

def thWriter (rounds : Nat) (state : State size) : Option (State size) :=
  match state.writer.place with
  | .wrlock =>
      if state.writer.i < rounds then
        (state.rwlock.wrlock .writer).map fun held =>
          { state with rwlock := held, writer := ⟨state.writer.i, .load⟩ }
      else none
  | .load => some { state with writer := ⟨state.writer.i, .store state.config⟩ }
  | .store register =>
      some { state with config := register + 10, writer := ⟨state.writer.i, .fetch⟩ }
  | .fetch => some { state with writer := ⟨state.writer.i, .print state.config⟩ }
  | .print value =>
      some { state with
        output := state.output ++ [.updated value]
        writer := ⟨state.writer.i, .unlock⟩ }
  | .unlock =>
      some { state with
        rwlock := state.rwlock.unlock .writer
        writer := ⟨state.writer.i + 1, .wrlock⟩ }

def thReader (state : State size) (id : Fin size) : Option (State size) :=
  match state.reader id with
  | .rdlock =>
      (state.rwlock.rdlock (.reader id)).map fun held =>
        { state with rwlock := held }.setReader id .fetch
  | .fetch => some (state.setReader id (.print state.config))
  | .print value =>
      some ({ state with output := state.output ++ [Line.read id value] }.setReader id .unlock)
  | .unlock =>
      some ({ state with rwlock := state.rwlock.unlock (.reader id) }.setReader id .returned)
  | .returned => none

/-- `main` joins the readers and the writer. -/
def advance (rounds : Nat) (state : State size) : Label size → Option (State size)
  | .thread .writer => thWriter rounds state
  | .thread (.reader id) => thReader state id
  | .main =>
      if state.finished = false ∧ (∀ id, state.reader id = .returned) ∧
          state.writer = ⟨rounds, .wrlock⟩ then
        some { state with finished := true }
      else none

def boot : State size where
  config := 100
  rwlock := .free
  writer := ⟨0, .wrlock⟩
  reader _ := .rdlock
  output := []
  finished := false

def system (size rounds : Nat) : System (State size) (Label size) where
  init state := state = boot
  step state label after := advance rounds state label = some after

/-- Reads `lines` as operations on one register, which holds `config` at their start. -/
def replay (config : Nat) : List (Line size) → Option Nat
  | [] => some config
  | .updated value :: rest => if value = config + 10 then replay value rest else none
  | .read _ value :: rest => if value = config then replay config rest else none

theorem replay_append (config : Nat) (first second : List (Line size)) :
    replay config (first ++ second) = (replay config first).bind fun later => replay later second := by
  induction first generalizing config with
  | nil => rfl
  | cons line rest ih =>
      cases line with
      | updated value =>
          simp only [List.cons_append, replay]
          split_ifs
          · exact ih value
          · rfl
      | read id value =>
          simp only [List.cons_append, replay]
          split_ifs
          · exact ih config
          · rfl

def updateLines (output : List (Line size)) : Nat :=
  output.countP fun
    | .updated _ => true
    | .read _ _ => false

def readLines (id : Fin size) (output : List (Line size)) : Nat :=
  output.countP fun
    | .updated _ => false
    | .read reader _ => decide (reader = id)

theorem update_lines_append (first second : List (Line size)) :
    updateLines (first ++ second) = updateLines first + updateLines second :=
  List.countP_append

theorem read_lines_append (id : Fin size) (first second : List (Line size)) :
    readLines id (first ++ second) = readLines id first + readLines id second :=
  List.countP_append

namespace WriterPlace

def mode : WriterPlace → Mode
  | .wrlock => .outside
  | _ => .writing

/-- The increments of this iteration that `config` has. -/
def stored : WriterPlace → Nat
  | .wrlock | .load | .store _ => 0
  | .fetch | .print _ | .unlock => 1

def printed : WriterPlace → Nat
  | .unlock => 1
  | _ => 0

def steps : WriterPlace → Nat
  | .wrlock => 0
  | .load => 1
  | .store _ => 2
  | .fetch => 3
  | .print _ => 4
  | .unlock => 5

end WriterPlace

namespace ReaderPlace

def mode : ReaderPlace → Mode
  | .rdlock | .returned => .outside
  | .fetch | .print _ | .unlock => .reading

def printed : ReaderPlace → Nat
  | .rdlock | .fetch | .print _ => 0
  | .unlock | .returned => 1

def steps : ReaderPlace → Nat
  | .rdlock => 4
  | .fetch => 3
  | .print _ => 2
  | .unlock => 1
  | .returned => 0

end ReaderPlace

/-- Where the parties are with respect to the lock. -/
def modes (place : WriterPlace) (reader : Fin size → ReaderPlace) : Party size → Mode
  | .writer => place.mode
  | .reader id => (reader id).mode

theorem update_modes_writer (place later : WriterPlace) (reader : Fin size → ReaderPlace) :
    Function.update (modes place reader) .writer later.mode = modes later reader := by
  funext party
  cases party with
  | writer => rw [Function.update_self]; rfl
  | reader id => rw [Function.update_of_ne (by simp)]; rfl

theorem update_modes_reader (place : WriterPlace) (reader : Fin size → ReaderPlace)
    (id : Fin size) (later : ReaderPlace) :
    Function.update (modes place reader) (.reader id) later.mode =
      modes place (Function.update reader id later) := by
  funext party
  cases party with
  | writer => rw [Function.update_of_ne (by simp)]; rfl
  | reader query =>
      by_cases same : query = id
      · rw [same, Function.update_self, modes, Function.update_self]
      · rw [Function.update_of_ne (by simp [same]), modes, modes, Function.update_of_ne same]

/-- While the writer is outside, `config` is what its last line says. -/
structure Sound (rounds : Nat) (state : State size) : Prop where
  agrees : Agrees state.rwlock (modes state.writer.place state.reader)
  bound : state.writer.i ≤ rounds
  inside : state.writer.place ≠ .wrlock → state.writer.i < rounds
  config : state.config = 100 + 10 * (state.writer.i + state.writer.place.stored)
  register : ∀ value, state.writer.place = .store value → value = state.config
  argument : ∀ value, state.writer.place = .print value → value = state.config
  reading : ∀ id value, state.reader id = .print value → value = state.config
  told : replay 100 state.output =
    some (100 + 10 * (state.writer.i + state.writer.place.printed))
  updates : updateLines state.output = state.writer.i + state.writer.place.printed
  reads : ∀ id, readLines id state.output = (state.reader id).printed
  finished : state.finished = true →
    (∀ id, state.reader id = .returned) ∧ state.writer = ⟨rounds, .wrlock⟩

theorem boot_sound (rounds : Nat) : Sound rounds (boot : State size) where
  agrees := by
    have outside : modes .wrlock (fun _ : Fin size => .rdlock) = fun _ => .outside := by
      funext party
      cases party <;> rfl
    simp only [boot]
    rw [outside]
    exact Agrees.free
  bound := Nat.zero_le _
  inside outside := absurd rfl outside
  config := rfl
  register _ case := by cases case
  argument _ case := by cases case
  reading _ _ case := by cases case
  told := rfl
  updates := rfl
  reads _ := rfl
  finished done := by cases done

/-- A step of the writer inside that leaves `config`, the lock and the output alone. -/
theorem Sound.move_writer {rounds : Nat} {state : State size} (sound : Sound rounds state)
    {place : WriterPlace} (inside : state.writer.place ≠ .wrlock) (stays : place ≠ .wrlock)
    (stored : place.stored = state.writer.place.stored)
    (printed : place.printed = state.writer.place.printed)
    (register : ∀ value, place = .store value → value = state.config)
    (argument : ∀ value, place = .print value → value = state.config) :
    Sound rounds { state with writer := ⟨state.writer.i, place⟩ } where
  agrees := by
    have writing : place.mode = state.writer.place.mode := by
      revert inside stays
      cases place <;> cases state.writer.place <;> simp [WriterPlace.mode]
    have same : modes place state.reader = modes state.writer.place state.reader := by
      funext party
      cases party with
      | writer => exact writing
      | reader id => rfl
    simp only
    rw [same]
    exact sound.agrees
  bound := sound.bound
  inside _ := sound.inside inside
  config := by
    simp only
    rw [stored]
    exact sound.config
  register := register
  argument := argument
  reading := sound.reading
  told := by
    simp only
    rw [printed]
    exact sound.told
  updates := by
    simp only
    rw [printed]
    exact sound.updates
  reads := sound.reads
  finished done := by
    have writer := (sound.finished done).2
    rw [writer] at inside
    exact absurd rfl inside

/-- Beside the writer inside no reader is about to print. -/
theorem Sound.no_argument {rounds : Nat} {state : State size} (sound : Sound rounds state)
    (inside : state.writer.place ≠ .wrlock) (id : Fin size) (value : Nat) :
    state.reader id ≠ .print value := by
  intro printing
  have writing : modes state.writer.place state.reader .writer = .writing := by
    revert inside
    simp only [modes]
    cases state.writer.place <;> simp [WriterPlace.mode]
  have outside := sound.agrees.exclusion writing (show Party.reader id ≠ .writer by simp)
  rw [modes, printing] at outside
  cases outside

theorem writer_sound {rounds : Nat} {state after : State size} (sound : Sound rounds state)
    (taken : thWriter rounds state = some after) : Sound rounds after := by
  unfold thWriter at taken
  split at taken
  case h_1 place =>
    split_ifs at taken with more
    obtain ⟨held, granted, rfl⟩ := Option.map_eq_some_iff.mp taken
    refine { sound with agrees := ?_, inside := fun _ => more, config := ?_, register := ?_,
                        argument := ?_, told := ?_, updates := ?_, finished := ?_ }
    · have locked := sound.agrees.wrlock granted
      rwa [show Mode.writing = WriterPlace.mode .load from rfl, update_modes_writer] at locked
    · have config := sound.config
      rwa [place] at config
    · rintro value ⟨⟩
    · rintro value ⟨⟩
    · have told := sound.told
      rwa [place] at told
    · have updates := sound.updates
      rwa [place] at updates
    · intro done
      have writer := (sound.finished done).2
      rw [writer] at more
      exact absurd more (Nat.lt_irrefl _)
  case h_2 place =>
    cases taken
    apply sound.move_writer <;> simp [place, WriterPlace.stored, WriterPlace.printed]
  case h_3 register place =>
    cases taken
    have value := sound.register register place
    have config := sound.config
    have inside : state.writer.place ≠ .wrlock := by simp [place]
    refine { sound with agrees := ?_, inside := fun _ => sound.inside inside, config := ?_,
                        register := ?_, argument := ?_, reading := ?_, told := ?_, updates := ?_,
                        finished := ?_ }
    · have locked := sound.agrees
      rwa [place] at locked
    · rw [place] at config
      simp only [WriterPlace.stored] at config ⊢
      omega
    · rintro value ⟨⟩
    · rintro value ⟨⟩
    · intro id value printing
      exact absurd printing (sound.no_argument inside id value)
    · have told := sound.told
      rwa [place] at told
    · have updates := sound.updates
      rwa [place] at updates
    · intro done
      have writer := (sound.finished done).2
      rw [writer] at inside
      exact absurd rfl inside
  case h_4 place =>
    cases taken
    apply sound.move_writer <;> simp [place, WriterPlace.stored, WriterPlace.printed]
  case h_5 value place =>
    cases taken
    have shown := sound.argument value place
    have config := sound.config
    have inside : state.writer.place ≠ .wrlock := by simp [place]
    rw [place] at config
    simp only [WriterPlace.stored] at config
    refine { sound with agrees := ?_, inside := fun _ => sound.inside inside, config := ?_,
                        register := ?_, argument := ?_, told := ?_, updates := ?_, reads := ?_,
                        finished := ?_ }
    · have locked := sound.agrees
      rwa [place] at locked
    · simp only [WriterPlace.stored]
      exact config
    · rintro value ⟨⟩
    · rintro value ⟨⟩
    · have told := sound.told
      rw [place] at told
      simp only [WriterPlace.printed, Nat.add_zero] at told ⊢
      rw [replay_append, told, Option.bind_some, replay, if_pos (by omega), replay]
      congr 1
      omega
    · have updates := sound.updates
      rw [place] at updates
      simp only [update_lines_append, updates]
      rfl
    · intro id
      simp only [read_lines_append, sound.reads id]
      rfl
    · intro done
      have writer := (sound.finished done).2
      rw [writer] at inside
      exact absurd rfl inside
  case h_6 place =>
    cases taken
    have inside : state.writer.place ≠ .wrlock := by simp [place]
    have more := sound.inside inside
    refine { sound with agrees := ?_, bound := more, inside := fun outside => absurd rfl outside,
                        config := ?_, register := ?_, argument := ?_, told := ?_, updates := ?_,
                        finished := ?_ }
    · have left : Agrees (state.rwlock.unlock .writer)
          (Function.update (modes state.writer.place state.reader) .writer .outside) :=
        sound.agrees.unlock (by simp [modes, place, WriterPlace.mode])
      rwa [show Mode.outside = WriterPlace.mode .wrlock from rfl, update_modes_writer] at left
    · have config := sound.config
      rwa [place] at config
    · rintro value ⟨⟩
    · rintro value ⟨⟩
    · have told := sound.told
      rwa [place] at told
    · have updates := sound.updates
      rwa [place] at updates
    · intro done
      have writer := (sound.finished done).2
      rw [writer] at inside
      exact absurd rfl inside

/-- A step of a reader that leaves `config` and the writer alone. -/
theorem Sound.move_reader {rounds : Nat} {state : State size} (sound : Sound rounds state)
    (id : Fin size) (place : ReaderPlace) (held : Lock (Party size)) (lines : List (Line size))
    (unfinished : state.reader id ≠ .returned)
    (agrees : Agrees held (Function.update (modes state.writer.place state.reader) (.reader id)
      place.mode))
    (reading : ∀ value, place = .print value → value = state.config)
    (told : replay (100 + 10 * (state.writer.i + state.writer.place.printed)) lines =
      some (100 + 10 * (state.writer.i + state.writer.place.printed)))
    (updates : updateLines lines = 0)
    (reads : (state.reader id).printed + readLines id lines = place.printed)
    (others : ∀ query, query ≠ id → readLines query lines = 0) :
    Sound rounds ({ state with rwlock := held, output := state.output ++ lines }.setReader id
      place) := by
  have self : Function.update state.reader id place id = place := Function.update_self ..
  have kept : ∀ query, query ≠ id → Function.update state.reader id place query =
      state.reader query := fun query different => Function.update_of_ne different ..
  refine { sound with agrees := ?_, reading := ?_, told := ?_, updates := ?_, reads := ?_,
                      finished := ?_ }
  · simp only [State.setReader]
    rwa [← update_modes_reader]
  · intro query value printing
    simp only [State.setReader] at printing
    by_cases same : query = id
    · rw [same, self] at printing
      exact reading value printing
    · rw [kept query same] at printing
      exact sound.reading query value printing
  · simp only [State.setReader]
    rw [replay_append, sound.told, Option.bind_some, told]
  · simp only [State.setReader, update_lines_append, updates]
    exact sound.updates
  · intro query
    simp only [State.setReader, read_lines_append, sound.reads query]
    by_cases same : query = id
    · rw [same, self, reads]
    · rw [kept query same, others query same, Nat.add_zero]
  · intro done
    exact absurd ((sound.finished done).1 id) unfinished

theorem reader_sound {rounds : Nat} {state after : State size} {id : Fin size}
    (sound : Sound rounds state) (taken : thReader state id = some after) :
    Sound rounds after := by
  unfold thReader at taken
  have mode : modes state.writer.place state.reader (.reader id) = (state.reader id).mode := rfl
  -- inside, the mode stays what it is
  have stays : ∀ later : ReaderPlace, later.mode = (state.reader id).mode →
      Agrees state.rwlock (Function.update (modes state.writer.place state.reader) (.reader id)
        later.mode) := by
    intro later same
    rw [same, ← mode, Function.update_eq_self]
    exact sound.agrees
  split at taken
  case h_1 place =>
    obtain ⟨held, granted, rfl⟩ := Option.map_eq_some_iff.mp taken
    have moved := sound.move_reader id .fetch held []
      (by simp [place]) (sound.agrees.rdlock (by rw [mode, place]; rfl) granted)
      (by simp) rfl rfl (by rw [place]; rfl) (fun _ _ => rfl)
    simpa using moved
  case h_2 place =>
    cases taken
    have moved := sound.move_reader id (.print state.config) state.rwlock []
      (by simp [place]) (stays _ (by rw [place]; rfl)) (by rintro value ⟨⟩; rfl) rfl rfl
      (by rw [place]; rfl) (fun _ _ => rfl)
    simpa using moved
  case h_3 value place =>
    cases taken
    have shown := sound.reading id value place
    have outside : state.writer.place = .wrlock := by
      by_contra inside
      exact sound.no_argument inside id value place
    have config := sound.config
    rw [outside] at config
    simp only [WriterPlace.stored] at config
    apply sound.move_reader id .unlock state.rwlock [.read id value]
    · simp [place]
    · exact stays _ (by rw [place]; rfl)
    · rintro value ⟨⟩
    · rw [outside, replay, if_pos (by simp only [WriterPlace.printed]; omega), replay]
    · rfl
    · simp [place, ReaderPlace.printed, readLines]
    · intro query different
      simp [readLines, Ne.symm different]
  case h_4 place =>
    cases taken
    have moved := sound.move_reader id .returned
      (state.rwlock.unlock (.reader id)) [] (by simp [place])
      (sound.agrees.unlock (by rw [mode, place]; simp [ReaderPlace.mode])) (by simp) rfl rfl
      (by rw [place]; rfl) (fun _ _ => rfl)
    simpa using moved
  case h_5 => cases taken

theorem reachable_sound {rounds : Nat} {state : State size}
    (reached : Reachable (system size rounds) state) : Sound rounds state := by
  apply reachable_invariant _ _ reached
  · rintro _ rfl
    exact boot_sound rounds
  · intro state label after _ sound taken
    match label, taken with
    | .thread .writer, taken => exact writer_sound sound taken
    | .thread (.reader id), taken => exact reader_sound sound taken
    | .main, taken =>
        simp only [system, advance] at taken
        split_ifs at taken with ready
        cases taken
        exact { sound with finished := fun _ => ready.2 }

def State.work (rounds : Nat) (state : State size) : Nat :=
  (6 * (rounds - state.writer.i) - state.writer.place.steps) +
    ∑ id, (state.reader id).steps + (if state.finished = false then 1 else 0)

theorem writer_lowers_work {rounds : Nat} {state after : State size}
    (sound : Sound rounds state) (taken : thWriter rounds state = some after) :
    after.work rounds < state.work rounds := by
  have inside := sound.inside
  unfold thWriter at taken
  split at taken
  case h_1 place =>
    split_ifs at taken with more
    obtain ⟨held, -, rfl⟩ := Option.map_eq_some_iff.mp taken
    simp only [State.work, place, WriterPlace.steps]
    omega
  all_goals
    rename_i place
    have more := inside (by simp [place])
    cases taken
    simp only [State.work, place, WriterPlace.steps]
    omega

theorem set_reader_lowers_work {rounds : Nat} {state before : State size} {id : Fin size}
    {place : ReaderPlace} (less : place.steps < (state.reader id).steps)
    (writer : before.writer = state.writer) (reader : before.reader = state.reader)
    (finished : before.finished = state.finished) :
    (before.setReader id place).work rounds < state.work rounds := by
  have fewer : ∑ query, (Function.update state.reader id place query).steps <
      ∑ query, (state.reader query).steps := by
    apply Finset.sum_lt_sum
    · intro query _
      by_cases same : query = id
      · rw [same, Function.update_self]
        exact less.le
      · rw [Function.update_of_ne same]
    · exact ⟨id, Finset.mem_univ id, by rwa [Function.update_self]⟩
  simp only [State.work, State.setReader, writer, reader, finished]
  omega

theorem reader_lowers_work {rounds : Nat} {state after : State size} {id : Fin size}
    (taken : thReader state id = some after) : after.work rounds < state.work rounds := by
  unfold thReader at taken
  split at taken
  case h_1 place =>
    obtain ⟨held, -, rfl⟩ := Option.map_eq_some_iff.mp taken
    exact set_reader_lowers_work (by rw [place]; decide) rfl rfl rfl
  case h_2 place =>
    cases taken
    exact set_reader_lowers_work (by rw [place]; exact Nat.lt_succ_self 2) rfl rfl rfl
  case h_3 value place =>
    cases taken
    exact set_reader_lowers_work (by rw [place]; exact Nat.lt_succ_self 1) rfl rfl rfl
  case h_4 place =>
    cases taken
    exact set_reader_lowers_work (by rw [place]; decide) rfl rfl rfl
  case h_5 => cases taken

theorem step_lowers_work {rounds : Nat} (state : State size) (label : Label size)
    (after : State size) (reached : Reachable (system size rounds) state)
    (taken : (system size rounds).step state label after) :
    after.work rounds < state.work rounds := by
  match label, taken with
  | .thread .writer, taken => exact writer_lowers_work (reachable_sound reached) taken
  | .thread (.reader id), taken => exact reader_lowers_work taken
  | .main, taken =>
      simp only [system, advance] at taken
      split_ifs at taken with ready
      cases taken
      simp [State.work, ready.1]

/-- Where no step is possible nobody is inside, and the lock refuses nobody. -/
theorem halted_finished {rounds : Nat} {state : State size}
    (reached : Reachable (system size rounds) state) (halted : Halted (system size rounds) state) :
    state.finished = true := by
  have sound := reachable_sound reached
  have writerStuck : thWriter rounds state = none :=
    Option.eq_none_iff_forall_not_mem.mpr fun after taken => halted (.thread .writer) after taken
  have readerStuck : ∀ id, thReader state id = none := fun id =>
    Option.eq_none_iff_forall_not_mem.mpr fun after taken =>
      halted (.thread (.reader id)) after taken
  have outside : ∀ party, modes state.writer.place state.reader party = .outside := by
    intro party
    cases party with
    | writer =>
        unfold thWriter at writerStuck
        split at writerStuck
        case h_1 place =>
          rw [modes, place]
          rfl
        all_goals cases writerStuck
    | reader id =>
        have stuck := readerStuck id
        unfold thReader at stuck
        split at stuck
        case h_1 place =>
          rw [modes, place]
          rfl
        case h_5 place =>
          rw [modes, place]
          rfl
        all_goals cases stuck
  have free := sound.agrees.eq_free outside
  have writer : state.writer = ⟨rounds, .wrlock⟩ := by
    have bound := sound.bound
    unfold thWriter at writerStuck
    split at writerStuck
    case h_1 place =>
      rw [free] at writerStuck
      split_ifs at writerStuck with more
      · cases writerStuck
      · have last : state.writer.i = rounds := by omega
        rw [← last, ← place]
    all_goals cases writerStuck
  have returned : ∀ id, state.reader id = .returned := by
    intro id
    have stuck := readerStuck id
    unfold thReader at stuck
    split at stuck
    case h_1 place =>
      rw [free] at stuck
      cases stuck
    case h_5 place => exact place
    all_goals cases stuck
  by_contra unfinished
  rw [Bool.not_eq_true] at unfinished
  apply halted .main { state with finished := true }
  simp [system, advance, unfinished, writer, returned]

/-- The lines on the standard output are a history of one register: each reader shows what
the writer has printed last. Every run ends, with all lines there. -/
theorem output_replays (size rounds : Nat) :
    (∀ states, ¬ InfiniteRun (system size rounds) states) ∧
    ∀ state : State size, Reachable (system size rounds) state →
      replay 100 state.output = some (100 + 10 * updateLines state.output) ∧
      updateLines state.output ≤ rounds ∧
      (∀ id, readLines id state.output ≤ 1) ∧
      (Halted (system size rounds) state → state.finished = true ∧
        updateLines state.output = rounds ∧ ∀ id, readLines id state.output = 1) := by
  refine ⟨no_infinite_run (State.work rounds) step_lowers_work, fun state reached => ?_⟩
  have sound := reachable_sound reached
  have told := sound.told
  have updates := sound.updates
  rw [← updates] at told
  refine ⟨told, ?_, ?_, ?_⟩
  · have bound := sound.bound
    have inside := sound.inside
    rw [updates]
    cases place : state.writer.place <;> simp [place, WriterPlace.printed] at inside ⊢ <;> omega
  · intro id
    rw [sound.reads id]
    cases state.reader id <;> simp [ReaderPlace.printed]
  · intro halted
    have finished := halted_finished reached halted
    obtain ⟨returned, writer⟩ := sound.finished finished
    refine ⟨finished, ?_, fun id => ?_⟩
    · rw [updates, writer]
      rfl
    · rw [sound.reads id, returned id]
      rfl

end LinuxSystemPrograms.WrRdLock
