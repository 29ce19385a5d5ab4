import LinuxSystemPrograms.Decimal
import LinuxSystemPrograms.Pipes
import LinuxSystemPrograms.Sockets
import LinuxSystemPrograms.Stdio
import LinuxSystemPrograms.Transition

/-!
# `unamed_pipe_test.c`

Both processes from the `fork` on, which leaves both of them with both ends of the pipe. A
step is one call. `argument` is `argv[1]` up to its NUL; every byte of the output is kept
with the call that wrote it. Writing to the standard output does not fail.
-/

namespace LinuxSystemPrograms.UnamedPipeTest

open LinuxSystemPrograms.Framing
open LinuxSystemPrograms.Pipes
open LinuxSystemPrograms.Sockets
open LinuxSystemPrograms.Stdio
open LinuxSystemPrograms.Transition

set_option autoImplicit false

inductive Role where
  | parent
  | child
  deriving DecidableEq, Repr

/-- `killed` is the end by `SIGPIPE`. -/
inductive ParentPlace where
  | closeRead
  | announce
  | write (rest : List Byte)
  | closeWrite
  | waitpid
  | finish
  | returned
  | killed
  deriving DecidableEq, Repr

inductive ChildPlace where
  | closeWrite
  | announce
  | read
  | write (buf : Byte)
  | newline
  | closeRead
  | finish
  | exited
  deriving DecidableEq, Repr

inductive Call where
  | parentPrintf
  | childPrintf
  | childWrite
  deriving DecidableEq, Repr

structure State (limits : Limits) where
  pipe : Pipe Role Byte limits
  parent : ParentPlace
  child : ChildPlace
  parentOut : Stream Byte
  childOut : Stream Byte
  output : List (Call × Byte)

/-- `count` is what the next part of the parent's `write` moves into the pipe. -/
inductive Label where
  | parent (count : Nat)
  | child
  deriving DecidableEq, Repr

def parentText (pid : Int) : List Byte :=
  "Now parent ".toUTF8.data.toList ++ Decimal.ofInt pid ++
    " process is using unnamed pipe to communicate:\n".toUTF8.data.toList

def childText : List Byte := "Son process is now reading information\n".toUTF8.data.toList

/-- What is on the standard output at some moment, with the call that wrote it. -/
def tagged (call : Call) (bytes : List Byte) : List (Call × Byte) := bytes.map fun byte => (call, byte)

variable {limits : Limits}

namespace State

def parentStep (pid : Int) (argument : List Byte) (state : State limits) (count : Nat) :
    Option (State limits) :=
  match state.parent with
  | .closeRead => some { state with pipe := state.pipe.closeRead .parent, parent := .announce }
  | .announce =>
      let (written, parentOut) := state.parentOut.printf newline (parentText pid)
      some { state with
        parentOut := parentOut
        output := state.output ++ tagged .parentPrintf written
        -- a `write` of nothing returns at once
        parent := if argument = [] then .closeWrite else .write argument }
  | .write rest =>
      if state.pipe.readers = ∅ then
        some { state with
          pipe := (state.pipe.closeRead .parent).closeWrite .parent
          parent := .killed }
      else
        (state.pipe.write argument.length rest count).map fun (remaining, pipe) =>
          { state with
            pipe := pipe
            parent := if remaining = [] then .closeWrite else .write remaining }
  | .closeWrite => some { state with pipe := state.pipe.closeWrite .parent, parent := .waitpid }
  | .waitpid => if state.child = .exited then some { state with parent := .finish } else none
  | .finish =>
      let (written, parentOut) := state.parentOut.flush
      some { state with
        parentOut := parentOut
        output := state.output ++ tagged .parentPrintf written
        parent := .returned }
  | .returned => none
  | .killed => none

def childPrintf (state : State limits) (text : List Byte) : State limits :=
  let (written, childOut) := state.childOut.printf newline text
  { state with
    childOut := childOut
    output := state.output ++ tagged .childPrintf written }

def childStep (state : State limits) : Option (State limits) :=
  match state.child with
  | .closeWrite => some { state with pipe := state.pipe.closeWrite .child, child := .announce }
  | .announce => some { state.childPrintf childText with child := .read }
  | .read =>
      (state.pipe.read 1).map fun (taken, pipe) =>
        { state with
          pipe := pipe
          child := match taken with
            | [] => .newline
            | buf :: _ => .write buf }
  | .write buf =>
      some { state with output := state.output ++ tagged .childWrite [buf], child := .read }
  | .newline => some { state.childPrintf [newline] with child := .closeRead }
  | .closeRead => some { state with pipe := state.pipe.closeRead .child, child := .finish }
  | .finish =>
      let (written, childOut) := state.childOut.flush
      some { state with
        childOut := childOut
        output := state.output ++ tagged .childPrintf written
        child := .exited }
  | .exited => none

def advance (pid : Int) (argument : List Byte) (state : State limits) :
    Label → Option (State limits)
  | .parent count => state.parentStep pid argument count
  | .child => state.childStep

end State

def boot (limits : Limits) (buffering : Buffering) : State limits where
  pipe :=
    { cells := []
      bounded := Nat.zero_le _
      readers := {.parent, .child}
      writers := {.parent, .child} }
  parent := .closeRead
  child := .closeWrite
  parentOut := .empty buffering
  childOut := .empty buffering
  output := []

def system (limits : Limits) (buffering : Buffering) (pid : Int) (argument : List Byte) :
    System (State limits) Label where
  init state := state = boot limits buffering
  step state label after := state.advance pid argument label = some after

/-- The bytes that the calls have written, in the order on the standard output. -/
def writtenBy (calls : Call → Bool) (output : List (Call × Byte)) : List Byte :=
  (output.filter fun entry => calls entry.1).map Prod.snd

def copied (output : List (Call × Byte)) : List Byte := writtenBy (· = .childWrite) output

def shownByChild (output : List (Call × Byte)) : List Byte := writtenBy (· ≠ .parentPrintf) output

def shownByParent (output : List (Call × Byte)) : List Byte := writtenBy (· = .parentPrintf) output

theorem written_by_append (calls : Call → Bool) (output added : List (Call × Byte)) :
    writtenBy calls (output ++ added) = writtenBy calls output ++ writtenBy calls added := by
  simp only [writtenBy, List.filter_append, List.map_append]

theorem written_by_tagged (calls : Call → Bool) (call : Call) (bytes : List Byte) :
    writtenBy calls (tagged call bytes) = if calls call then bytes else [] := by
  induction bytes with
  | nil => simp [writtenBy, tagged]
  | cons byte rest ih =>
      simp only [writtenBy, tagged, List.map_cons, List.filter_cons] at ih ⊢
      cases taken : calls call with
      | true => simp_all
      | false => simp_all

/-! ## What every step keeps -/

namespace ParentPlace

def writes : ParentPlace → Bool
  | .closeRead | .announce | .write _ | .closeWrite => true
  | _ => false

def unsent (argument : List Byte) : ParentPlace → List Byte
  | .closeRead | .announce => argument
  | .write rest => rest
  | _ => []

def said (pid : Int) : ParentPlace → List Byte
  | .closeRead | .announce => []
  | _ => parentText pid

end ParentPlace

namespace ChildPlace

def reads : ChildPlace → Bool
  | .finish | .exited => false
  | _ => true

def past : ChildPlace → Bool
  | .newline | .closeRead | .finish | .exited => true
  | _ => false

def held : ChildPlace → List Byte
  | .write buf => [buf]
  | _ => []

/-- What `printf` has been given before the loop, and after it. -/
def head : ChildPlace → List Byte
  | .closeWrite | .announce => []
  | _ => childText

def tail : ChildPlace → List Byte
  | .closeRead | .finish | .exited => [Sockets.newline]
  | _ => []

end ChildPlace

/-- Where the child's bytes stand on a terminal; otherwise what `printf` was given comes last,
when the child exits. -/
def Told (place : ChildPlace) (stream : Stream Byte) (shown copies : List Byte) :
    Buffering → Prop
  | .line => stream = ⟨.line, []⟩ ∧ shown = place.head ++ copies ++ place.tail
  | .full =>
      if place = .exited then stream = ⟨.full, []⟩ ∧ shown = copies ++ place.head ++ place.tail
      else stream = ⟨.full, place.head ++ place.tail⟩ ∧ shown = copies

structure Sound (buffering : Buffering) (pid : Int) (argument : List Byte)
    (state : State limits) : Prop where
  parentReads : .parent ∈ state.pipe.readers ↔ state.parent = .closeRead
  childReads : .child ∈ state.pipe.readers ↔ state.child.reads = true
  parentWrites : .parent ∈ state.pipe.writers ↔ state.parent.writes = true
  childWrites : .child ∈ state.pipe.writers ↔ state.child = .closeWrite
  drained : state.child.past = true → state.pipe.cells = [] ∧ state.parent.writes = false
  alive : state.parent ≠ .killed
  ended : state.parent = .finish ∨ state.parent = .returned → state.child = .exited
  rest : ∀ rest, state.parent = .write rest →
    rest ≠ [] ∧ (argument.length ≤ limits.pipeBuf → rest.length = argument.length)
  flow : copied state.output ++ state.child.held ++ state.pipe.cells ++
    state.parent.unsent argument = argument
  unread : state.child.head = [] → copied state.output = []
  told : Told state.child state.childOut (shownByChild state.output) (copied state.output) buffering
  parentTold : shownByParent state.output ++ state.parentOut.pending = state.parent.said pid
  flushed : state.parent = .returned → state.parentOut.pending = []

theorem boot_sound (limits : Limits) (buffering : Buffering) (pid : Int) (argument : List Byte) :
    Sound buffering pid argument (boot limits buffering) := by
  constructor
  case parentReads => simp [boot]
  case childReads => simp [boot, ChildPlace.reads]
  case parentWrites => simp [boot, ParentPlace.writes]
  case childWrites => simp [boot]
  case drained => simp [boot, ChildPlace.past]
  case alive => simp [boot]
  case ended => simp [boot]
  case rest => simp [boot]
  case flow => rfl
  case unread => exact fun _ => rfl
  case told =>
    cases buffering with
    | line => exact ⟨rfl, rfl⟩
    | full => exact ⟨rfl, rfl⟩
  case parentTold => rfl
  case flushed => simp [boot]

/-- Nobody is left to write exactly when both ends are closed. -/
theorem Sound.writers {buffering : Buffering} {pid : Int} {argument : List Byte}
    {state : State limits} (sound : Sound buffering pid argument state) :
    state.pipe.writers = ∅ ↔ state.parent.writes = false ∧ state.child ≠ .closeWrite := by
  rw [← Bool.not_eq_true, ne_eq, ← not_iff_not.mpr sound.parentWrites,
    ← not_iff_not.mpr sound.childWrites, Finset.eq_empty_iff_forall_notMem]
  constructor
  · intro empty
    exact ⟨empty .parent, empty .child⟩
  · rintro ⟨parent, child⟩ (_ | _)
    · exact parent
    · exact child

theorem copied_tagged (call : Call) (bytes : List Byte) :
    copied (tagged call bytes) = if call = .childWrite then bytes else [] := by
  simp [copied, written_by_tagged]

theorem shown_by_child_tagged (call : Call) (bytes : List Byte) :
    shownByChild (tagged call bytes) = if call = .parentPrintf then [] else bytes := by
  cases call <;> simp [shownByChild, written_by_tagged]

theorem shown_by_parent_tagged (call : Call) (bytes : List Byte) :
    shownByParent (tagged call bytes) = if call = .parentPrintf then bytes else [] := by
  simp [shownByParent, written_by_tagged]

theorem copied_parent (output : List (Call × Byte)) (bytes : List Byte) :
    copied (output ++ tagged .parentPrintf bytes) = copied output := by
  rw [copied, written_by_append, ← copied, ← copied, copied_tagged, if_neg (by decide),
    List.append_nil]

theorem shown_by_child_parent (output : List (Call × Byte)) (bytes : List Byte) :
    shownByChild (output ++ tagged .parentPrintf bytes) = shownByChild output := by
  rw [shownByChild, written_by_append, ← shownByChild, ← shownByChild, shown_by_child_tagged,
    if_pos rfl, List.append_nil]

theorem shown_by_parent_parent (output : List (Call × Byte)) (bytes : List Byte) :
    shownByParent (output ++ tagged .parentPrintf bytes) = shownByParent output ++ bytes := by
  rw [shownByParent, written_by_append, ← shownByParent, ← shownByParent,
    shown_by_parent_tagged, if_pos rfl]

section Parent

variable {buffering : Buffering} {pid : Int} {argument : List Byte} {state : State limits}

/-- A step of the parent, by what it does to the pipe and to its stream. -/
theorem Sound.move_parent (sound : Sound buffering pid argument state)
    (pipe : Pipe Role Byte limits) (place : ParentPlace) (stream : Stream Byte)
    (written : List Byte) (reads : .parent ∈ pipe.readers ↔ place = .closeRead)
    (childReads : .child ∈ pipe.readers ↔ .child ∈ state.pipe.readers)
    (writes : .parent ∈ pipe.writers ↔ place.writes = true)
    (childWrites : .child ∈ pipe.writers ↔ .child ∈ state.pipe.writers)
    (drained : state.child.past = true → pipe.cells = [] ∧ place.writes = false)
    (alive : place ≠ .killed)
    (ended : place = .finish ∨ place = .returned → state.child = .exited)
    (rest : ∀ rest, place = .write rest →
      rest ≠ [] ∧ (argument.length ≤ limits.pipeBuf → rest.length = argument.length))
    (flow : pipe.cells ++ place.unsent argument =
      state.pipe.cells ++ state.parent.unsent argument)
    (told : shownByParent state.output ++ (written ++ stream.pending) = place.said pid)
    (flushed : place = .returned → stream.pending = []) :
    Sound buffering pid argument { state with
      pipe := pipe
      parent := place
      parentOut := stream
      output := state.output ++ tagged .parentPrintf written } := by
  refine ⟨reads, childReads.trans sound.childReads, writes, childWrites.trans sound.childWrites,
    drained, alive, ended, rest, ?_, ?_, ?_, ?_, flushed⟩
  · have before := sound.flow
    rw [copied_parent, List.append_assoc, flow, ← List.append_assoc]
    exact before
  · rw [copied_parent]
    exact sound.unread
  · rw [copied_parent, shown_by_child_parent]
    exact sound.told
  · rw [shown_by_parent_parent, List.append_assoc]
    exact told

theorem parent_sound {after : State limits} {count : Nat}
    (sound : Sound buffering pid argument state)
    (taken : state.parentStep pid argument count = some after) :
    Sound buffering pid argument after := by
  have parentReads := sound.parentReads
  have parentWrites := sound.parentWrites
  have drained := sound.drained
  have told := sound.parentTold
  have silent : state.output ++ tagged .parentPrintf [] = state.output := List.append_nil _
  unfold State.parentStep at taken
  split at taken
  case h_1 place =>
    cases taken
    rw [place] at parentReads parentWrites drained told
    have moved := sound.move_parent (state.pipe.closeRead .parent) .announce state.parentOut []
      (by simp [Pipe.closeRead]) (by simp [Pipe.closeRead]) parentWrites Iff.rfl drained
      (by simp) (by simp) (by simp) (by rw [place]; rfl) told (by simp)
    rwa [silent] at moved
  case h_2 place =>
    cases taken
    rw [place] at parentReads parentWrites drained told
    have open' : ∀ later : ParentPlace, later.writes = true → state.child.past = true →
        state.pipe.cells = [] ∧ later.writes = false := fun later _ past => by
      cases (drained past).2
    have written := state.parentOut.printf_written newline (parentText pid)
    have all : shownByParent state.output ++
        ((state.parentOut.printf newline (parentText pid)).1 ++
          (state.parentOut.printf newline (parentText pid)).2.pending) = parentText pid := by
      rw [written, ← List.append_assoc, told]
      rfl
    by_cases nothing : argument = []
    · rw [if_pos nothing]
      exact sound.move_parent state.pipe .closeWrite _ _ (by simp [parentReads]) Iff.rfl
        (parentWrites.trans (by simp [ParentPlace.writes])) Iff.rfl (open' _ rfl) (by simp)
        (by simp) (by simp) (by rw [place, nothing]; rfl) all (by simp)
    · rw [if_neg nothing]
      exact sound.move_parent state.pipe (.write argument) _ _ (by simp [parentReads]) Iff.rfl
        (parentWrites.trans (by simp [ParentPlace.writes])) Iff.rfl (open' _ rfl) (by simp)
        (by simp) (by rintro _ ⟨⟩; exact ⟨nothing, fun _ => rfl⟩) (by rw [place]; rfl) all
        (by simp)
  case h_3 rest place =>
    rw [place] at parentReads parentWrites drained told
    have listens : Role.child ∈ state.pipe.readers := by
      rw [sound.childReads]
      by_contra closed
      have past : state.child.past = true := by
        cases child : state.child <;> simp [child, ChildPlace.reads, ChildPlace.past] at closed ⊢
      cases (drained past).2
    rw [if_neg (Finset.ne_empty_of_mem listens)] at taken
    obtain ⟨⟨remaining, pipe⟩, moves, rfl⟩ := Option.map_eq_some_iff.mp taken
    obtain ⟨flow, length, positive, whole, readers, writers⟩ := Pipe.write_moves moves
    have reading : state.child.past = true → False := fun past => by cases (drained past).2
    by_cases done : remaining = []
    · have moved := sound.move_parent pipe .closeWrite state.parentOut []
        (by simp [readers, parentReads]) (by rw [readers])
        (by rw [writers, parentWrites]; simp [ParentPlace.writes]) (by rw [writers])
        (fun past => absurd past reading) (by simp) (by simp) (by simp)
        (by rw [place]; rw [done] at flow; exact flow) told (by simp)
      rw [silent] at moved
      simpa only [if_pos done] using moved
    · have moved := sound.move_parent pipe (.write remaining) state.parentOut []
        (by simp [readers, parentReads]) (by rw [readers])
        (by rw [writers, parentWrites]; simp [ParentPlace.writes]) (by rw [writers])
        (fun past => absurd past reading) (by simp) (by simp)
        (by
          rintro _ ⟨⟩
          refine ⟨done, fun short => ?_⟩
          -- a short `write` has left nothing
          have left := List.length_pos_iff.mpr done
          have all := (sound.rest rest place).2 short
          have one := whole short
          omega)
        (by rw [place]; exact flow) told (by simp)
      rw [silent] at moved
      simpa only [if_neg done] using moved
  case h_4 place =>
    cases taken
    rw [place] at parentReads parentWrites drained told
    have moved := sound.move_parent (state.pipe.closeWrite .parent) .waitpid state.parentOut []
      (by simp [Pipe.closeWrite, parentReads]) Iff.rfl (by simp [Pipe.closeWrite, ParentPlace.writes])
      (by simp [Pipe.closeWrite]) (fun past => ⟨(drained past).1, rfl⟩)
      (by simp) (by simp) (by simp) (by rw [place]; rfl) told (by simp)
    rwa [silent] at moved
  case h_5 place =>
    split_ifs at taken with exited
    cases taken
    rw [place] at parentReads parentWrites drained told
    have moved := sound.move_parent state.pipe .finish state.parentOut [] (by simp [parentReads])
      Iff.rfl parentWrites Iff.rfl drained (by simp) (fun _ => exited) (by simp)
      (by rw [place]; rfl) told (by simp)
    rwa [silent] at moved
  case h_6 place =>
    cases taken
    have ended := sound.ended
    rw [place] at parentReads parentWrites drained told ended
    exact sound.move_parent state.pipe .returned { state.parentOut with pending := [] }
      state.parentOut.pending (by simp [parentReads]) Iff.rfl parentWrites Iff.rfl drained
      (by simp) (fun _ => ended (Or.inl rfl)) (by simp) (by rw [place]; rfl)
      (by rw [List.append_nil]; exact told) (fun _ => rfl)
  case h_7 place => cases taken
  case h_8 place => cases taken

end Parent

section Child

variable {buffering : Buffering} {pid : Int} {argument : List Byte} {state : State limits}

/-- A step of the child, by what it does to the pipe and to the standard output. -/
theorem Sound.move_child (sound : Sound buffering pid argument state)
    (running : state.child ≠ .exited) (pipe : Pipe Role Byte limits) (place : ChildPlace)
    (stream : Stream Byte) (added : List (Call × Byte))
    (parentReads : .parent ∈ pipe.readers ↔ .parent ∈ state.pipe.readers)
    (reads : .child ∈ pipe.readers ↔ place.reads = true)
    (parentWrites : .parent ∈ pipe.writers ↔ .parent ∈ state.pipe.writers)
    (writes : .child ∈ pipe.writers ↔ place = .closeWrite)
    (drained : place.past = true → pipe.cells = [] ∧ state.parent.writes = false)
    (flow : copied added ++ place.held ++ pipe.cells = state.child.held ++ state.pipe.cells)
    (unread : place.head = [] → copied (state.output ++ added) = [])
    (told : Told place stream (shownByChild (state.output ++ added))
      (copied (state.output ++ added)) buffering)
    (own : shownByParent added = []) :
    Sound buffering pid argument { state with
      pipe := pipe
      child := place
      childOut := stream
      output := state.output ++ added } := by
  refine ⟨parentReads.trans sound.parentReads, reads, parentWrites.trans sound.parentWrites,
    writes, drained, sound.alive, ?_, sound.rest, ?_, unread, told, ?_, sound.flushed⟩
  · intro ending
    exact absurd (sound.ended ending) running
  · have before := sound.flow
    rw [copied, written_by_append, ← copied, ← copied]
    calc
      copied state.output ++ copied added ++ place.held ++ pipe.cells ++
          state.parent.unsent argument
          = copied state.output ++ (copied added ++ place.held ++ pipe.cells) ++
            state.parent.unsent argument := by simp only [List.append_assoc]
      _ = argument := by
        rw [flow, ← List.append_assoc]
        exact before
  · rw [shownByParent, written_by_append, ← shownByParent, ← shownByParent, own,
      List.append_nil]
    exact sound.parentTold

theorem child_text_framed : Framed newline childText :=
  Or.inr ⟨childText.dropLast, by decide +kernel⟩

theorem newline_framed : Framed newline [newline] := Or.inr ⟨[], rfl⟩

theorem copied_printf (output : List (Call × Byte)) (bytes : List Byte) :
    copied (output ++ tagged .childPrintf bytes) = copied output := by
  rw [copied, written_by_append, ← copied, ← copied, copied_tagged, if_neg (by decide),
    List.append_nil]

theorem shown_by_child_own (output : List (Call × Byte)) {call : Call} (bytes : List Byte)
    (own : call ≠ .parentPrintf) :
    shownByChild (output ++ tagged call bytes) = shownByChild output ++ bytes := by
  rw [shownByChild, written_by_append, ← shownByChild, ← shownByChild, shown_by_child_tagged,
    if_neg own]

/-- A call of `printf` between two places. -/
theorem told_printf {place later : ChildPlace} {stream : Stream Byte} {text : List Byte}
    {output : List (Call × Byte)} (running : place ≠ .exited) (still : later ≠ .exited)
    (framed : Framed newline text)
    (order : ∀ copies, copies = copied output →
      place.head ++ copies ++ place.tail ++ text = later.head ++ copies ++ later.tail)
    (said : place.head ++ place.tail ++ text = later.head ++ later.tail)
    (told : Told place stream (shownByChild output) (copied output) buffering) :
    Told later (stream.printf newline text).2
      (shownByChild (output ++ tagged .childPrintf (stream.printf newline text).1))
      (copied (output ++ tagged .childPrintf (stream.printf newline text).1)) buffering := by
  rw [copied_printf, shown_by_child_own _ _ (by decide)]
  cases buffering with
  | line =>
      obtain ⟨rfl, shown⟩ := told
      rw [Stream.printf_line rfl rfl framed]
      refine ⟨rfl, ?_⟩
      rw [shown]
      exact order _ rfl
  | full =>
      simp only [Told, if_neg running] at told
      obtain ⟨rfl, shown⟩ := told
      rw [Stream.printf_full rfl]
      simp only [Told, if_neg still, List.append_nil]
      exact ⟨by rw [said], shown⟩

theorem child_sound {after : State limits} (sound : Sound buffering pid argument state)
    (taken : state.childStep = some after) : Sound buffering pid argument after := by
  have childReads := sound.childReads
  have childWrites := sound.childWrites
  have drained := sound.drained
  have unread := sound.unread
  have told := sound.told
  have silent : state.output ++ [] = state.output := List.append_nil _
  unfold State.childStep at taken
  split at taken
  case h_1 place =>
    cases taken
    rw [place] at childReads childWrites drained unread told
    have moved := sound.move_child (by simp [place]) (state.pipe.closeWrite .child) .announce
      state.childOut [] Iff.rfl childReads (by simp [Pipe.closeWrite]) (by simp [Pipe.closeWrite])
      drained (by rw [place]; rfl) (by rwa [silent]) (by rw [silent]; exact told) rfl
    rwa [silent] at moved
  case h_2 place =>
    cases taken
    rw [place] at childReads childWrites drained unread told
    apply sound.move_child (by simp [place]) state.pipe .read _ _ Iff.rfl childReads Iff.rfl
      (childWrites.trans (by simp)) drained
    · rw [copied_tagged, if_neg (by decide), place]
      rfl
    · intro noText
      cases noText
    · apply told_printf (by simp) (by simp) child_text_framed _ _ told
      · intro copies same
        rw [same, unread rfl]
        rfl
      · rfl
    · rw [shown_by_parent_tagged, if_neg (by decide)]
  case h_3 place =>
    obtain ⟨⟨bytes, pipe⟩, reads, rfl⟩ := Option.map_eq_some_iff.mp taken
    rw [place] at childReads childWrites drained unread told
    obtain ⟨cells, short, readers, writers⟩ := Pipe.read_takes reads
    cases bytes with
    | nil =>
        obtain ⟨empty, nobody⟩ := Pipe.read_end (by decide) reads
        have closed := (sound.writers.mp nobody).1
        have moved := sound.move_child (by simp [place]) pipe .newline state.childOut []
          (by rw [readers]) (by rw [readers]; exact childReads) (by rw [writers])
          (by rw [writers]; exact childWrites.trans (by simp))
          (fun _ => ⟨by rwa [empty] at cells, closed⟩) (by rw [place]; exact cells)
          (by rwa [silent]) (by rw [silent]; exact told) rfl
        rwa [silent] at moved
    | cons buf rest =>
        have one : rest = [] := by simpa using short
        subst one
        have moved := sound.move_child (by simp [place]) pipe (.write buf) state.childOut []
          (by rw [readers]) (by rw [readers]; exact childReads) (by rw [writers])
          (by rw [writers]; exact childWrites.trans (by simp)) (by simp [ChildPlace.past])
          (by rw [place]; exact cells) (by rwa [silent]) (by rw [silent]; exact told) rfl
        rwa [silent] at moved
  case h_4 buf place =>
    cases taken
    rw [place] at childReads childWrites drained unread told
    have copies : copied (state.output ++ tagged .childWrite [buf]) =
        copied state.output ++ [buf] := by
      rw [copied, written_by_append, ← copied, ← copied, copied_tagged, if_pos rfl]
    apply sound.move_child (by simp [place]) state.pipe .read state.childOut _ Iff.rfl childReads
      Iff.rfl (childWrites.trans (by simp)) drained
    · rw [copied_tagged, if_pos rfl, place]
      rfl
    · intro noText
      cases noText
    · rw [copies, shown_by_child_own _ _ (by decide)]
      cases buffering with
      | line =>
          obtain ⟨stream, shown⟩ := told
          refine ⟨stream, ?_⟩
          rw [shown]
          simp [ChildPlace.head, ChildPlace.tail]
      | full =>
          obtain ⟨stream, shown⟩ := told
          refine ⟨stream, ?_⟩
          rw [shown]
    · rw [shown_by_parent_tagged, if_neg (by decide)]
  case h_5 place =>
    cases taken
    rw [place] at childReads childWrites drained unread told
    apply sound.move_child (by simp [place]) state.pipe .closeRead _ _ Iff.rfl childReads Iff.rfl
      (childWrites.trans (by simp)) drained
    · rw [copied_tagged, if_neg (by decide), place]
      rfl
    · intro noText
      cases noText
    · apply told_printf (by simp) (by simp) newline_framed _ _ told
      · intro copies _
        simp [ChildPlace.head, ChildPlace.tail]
      · rfl
    · rw [shown_by_parent_tagged, if_neg (by decide)]
  case h_6 place =>
    cases taken
    rw [place] at childReads childWrites drained unread told
    have moved := sound.move_child (by simp [place]) (state.pipe.closeRead .child) .finish
      state.childOut [] (by simp [Pipe.closeRead]) (by simp [Pipe.closeRead, ChildPlace.reads])
      Iff.rfl (childWrites.trans (by simp)) drained (by rw [place]; rfl) (by rwa [silent])
      (by rw [silent]; exact told) rfl
    rwa [silent] at moved
  case h_7 place =>
    cases taken
    rw [place] at childReads childWrites drained unread told
    apply sound.move_child (by simp [place]) state.pipe .exited _ _ Iff.rfl childReads Iff.rfl
      (childWrites.trans (by simp)) drained
    · rw [copied_tagged, if_neg (by decide), place]
      rfl
    · intro noText
      cases noText
    · rw [copied_printf, shown_by_child_own _ _ (by decide)]
      cases buffering with
      | line =>
          obtain ⟨stream, shown⟩ := told
          rw [stream]
          exact ⟨rfl, by rw [shown]; exact List.append_nil _⟩
      | full =>
          obtain ⟨stream, shown⟩ := told
          rw [stream]
          refine ⟨rfl, ?_⟩
          rw [shown, List.append_assoc]
          rfl
    · rw [shown_by_parent_tagged, if_neg (by decide)]
  case h_8 place => cases taken

end Child

theorem reachable_sound {buffering : Buffering} {pid : Int} {argument : List Byte}
    {state : State limits} (reached : Reachable (system limits buffering pid argument) state) :
    Sound buffering pid argument state := by
  apply reachable_invariant _ _ reached
  · rintro _ rfl
    exact boot_sound limits buffering pid argument
  · intro state label after _ sound taken
    cases label with
    | parent count => exact parent_sound sound taken
    | child => exact child_sound sound taken

/-! ## The end of a run -/

def ParentPlace.steps (argument : List Byte) : ParentPlace → Nat
  | .closeRead => 3 * argument.length + 6
  | .announce => 3 * argument.length + 5
  | .write rest => 3 * rest.length + 4
  | .closeWrite => 3
  | .waitpid => 2
  | .finish => 1
  | .returned => 0
  | .killed => 0

def ChildPlace.steps : ChildPlace → Nat
  | .closeWrite => 7
  | .announce => 6
  | .write _ => 5
  | .read => 4
  | .newline => 3
  | .closeRead => 2
  | .finish => 1
  | .exited => 0

/-- A byte outside the pipe is worth one step more than one inside. -/
def State.work (argument : List Byte) (state : State limits) : Nat :=
  state.parent.steps argument + 2 * state.pipe.cells.length + state.child.steps

section Ends

variable {pid : Int} {argument : List Byte} {state after : State limits}

theorem parent_lowers_work {count : Nat}
    (taken : state.parentStep pid argument count = some after) :
    after.work argument < state.work argument := by
  unfold State.parentStep at taken
  split at taken
  case h_2 place =>
    cases taken
    simp only [State.work, place]
    split_ifs
    · simp only [ParentPlace.steps]
      omega
    · simp only [ParentPlace.steps]
      omega
  case h_3 rest place =>
    split_ifs at taken with broken
    · cases taken
      simp only [State.work, place, ParentPlace.steps, Pipe.closeRead, Pipe.closeWrite]
      omega
    · obtain ⟨⟨remaining, pipe⟩, moves, rfl⟩ := Option.map_eq_some_iff.mp taken
      obtain ⟨flow, length, positive, _, _, _⟩ := Pipe.write_moves moves
      have sizes := congrArg List.length flow
      simp only [List.length_append] at sizes
      simp only [State.work, place]
      split_ifs
      · simp only [ParentPlace.steps]
        omega
      · simp only [ParentPlace.steps]
        omega
  case h_5 place =>
    split_ifs at taken
    cases taken
    simp only [State.work, place, ParentPlace.steps]
    omega
  case h_7 place => cases taken
  case h_8 place => cases taken
  all_goals
    rename_i place
    cases taken
    simp only [State.work, place, ParentPlace.steps, Pipe.closeRead, Pipe.closeWrite]
    omega

theorem child_lowers_work (taken : state.childStep = some after) :
    after.work argument < state.work argument := by
  unfold State.childStep at taken
  split at taken
  case h_3 place =>
    obtain ⟨⟨bytes, pipe⟩, reads, rfl⟩ := Option.map_eq_some_iff.mp taken
    obtain ⟨cells, _, _, _⟩ := Pipe.read_takes reads
    have sizes := congrArg List.length cells
    rw [List.length_append] at sizes
    cases bytes with
    | nil =>
        simp only [State.work, place, ChildPlace.steps]
        simp only [List.length_nil] at sizes
        omega
    | cons buf rest =>
        simp only [State.work, place, ChildPlace.steps]
        simp only [List.length_cons] at sizes
        omega
  case h_8 place => cases taken
  all_goals
    rename_i place
    cases taken
    simp only [State.work, State.childPrintf, place, ChildPlace.steps, Pipe.closeRead,
      Pipe.closeWrite]
    omega

variable {buffering : Buffering}

theorem step_lowers_work (before : State limits) (label : Label) (later : State limits)
    (_ : Reachable (system limits buffering pid argument) before)
    (taken : (system limits buffering pid argument).step before label later) :
    later.work argument < before.work argument := by
  cases label with
  | parent count => exact parent_lowers_work taken
  | child => exact child_lowers_work taken

/-- A process that waits leaves the other one a step. -/
theorem halted_ends (reached : Reachable (system limits buffering pid argument) state)
    (halted : Halted (system limits buffering pid argument) state) :
    state.parent = .returned ∧ state.child = .exited := by
  have sound := reachable_sound reached
  have childStuck : state.childStep = none :=
    Option.eq_none_iff_forall_not_mem.mpr fun after taken => halted .child after taken
  have parentStuck : ∀ count, state.parentStep pid argument count = none := fun count =>
    Option.eq_none_iff_forall_not_mem.mpr fun after taken => halted (.parent count) after taken
  have exited : state.child = .exited := by
    by_contra running
    have blocked : state.child = .read ∧ state.pipe.cells = [] ∧ state.pipe.writers.Nonempty := by
      cases place : state.child with
      | read =>
          simp only [State.childStep, place, Option.map_eq_none_iff] at childStuck
          exact ⟨rfl, Pipe.read_blocks.mp childStuck⟩
      | exited => exact absurd place running
      | closeWrite => simp [State.childStep, place] at childStuck
      | announce => simp [State.childStep, place] at childStuck
      | write buf => simp [State.childStep, place] at childStuck
      | newline => simp [State.childStep, place] at childStuck
      | closeRead => simp [State.childStep, place] at childStuck
      | finish => simp [State.childStep, place] at childStuck
    obtain ⟨reading, empty, someone⟩ := blocked
    have writes : state.parent.writes = true := by
      by_contra closed
      rw [Bool.not_eq_true] at closed
      have nobody := sound.writers.mpr ⟨closed, by simp [reading]⟩
      exact someone.ne_empty nobody
    have stuck := parentStuck 0
    cases place : state.parent with
    | write rest =>
        obtain ⟨more, whole⟩ := sound.rest rest place
        have listens : Role.child ∈ state.pipe.readers := by
          rw [sound.childReads, reading]
          rfl
        obtain ⟨count, moves⟩ := Pipe.write_possible empty more whole
        have never := parentStuck count
        simp only [State.parentStep, place, if_neg (Finset.ne_empty_of_mem listens),
          Option.map_eq_none_iff] at never
        simp [never] at moves
    | closeRead => simp [State.parentStep, place] at stuck
    | announce => simp [State.parentStep, place] at stuck
    | closeWrite => simp [State.parentStep, place] at stuck
    | waitpid => simp [place, ParentPlace.writes] at writes
    | finish => simp [place, ParentPlace.writes] at writes
    | returned => simp [place, ParentPlace.writes] at writes
    | killed => simp [place, ParentPlace.writes] at writes
  refine ⟨?_, exited⟩
  have closed := (sound.drained (by rw [exited]; rfl)).2
  have stuck := parentStuck 0
  cases place : state.parent with
  | returned => rfl
  | killed => exact absurd place sound.alive
  | waitpid => simp [State.parentStep, place, exited] at stuck
  | finish => simp [State.parentStep, place] at stuck
  | closeRead => simp [place, ParentPlace.writes] at closed
  | announce => simp [place, ParentPlace.writes] at closed
  | write rest => simp [place, ParentPlace.writes] at closed
  | closeWrite => simp [place, ParentPlace.writes] at closed

end Ends

def childOutput (argument : List Byte) : Buffering → List Byte
  | .line => childText ++ argument ++ [newline]
  | .full => argument ++ childText ++ [newline]

/-- Whatever the scheduler does and however the pipe takes the bytes, no process is killed and
every run ends; at the end the child has shown the argument, byte for byte, and nobody has the
pipe open. -/
theorem child_shows_argument (limits : Limits) (buffering : Buffering) (pid : Int)
    (argument : List Byte) :
    (∀ states, ¬ InfiniteRun (system limits buffering pid argument) states) ∧
    ∀ state, Reachable (system limits buffering pid argument) state →
      state.parent ≠ .killed ∧ copied state.output <+: argument ∧
      (state.child = .exited → shownByChild state.output = childOutput argument buffering) ∧
      (Halted (system limits buffering pid argument) state →
        state.parent = .returned ∧ state.child = .exited ∧
        shownByParent state.output = parentText pid ∧
        state.pipe.cells = [] ∧ state.pipe.readers = ∅ ∧ state.pipe.writers = ∅) := by
  refine ⟨no_infinite_run (State.work argument) step_lowers_work, fun state reached => ?_⟩
  have sound := reachable_sound reached
  have flow := sound.flow
  refine ⟨sound.alive, ?_, ?_, ?_⟩
  · rw [List.append_assoc, List.append_assoc] at flow
    exact ⟨_, flow⟩
  · intro exited
    have told := sound.told
    obtain ⟨empty, closed⟩ := sound.drained (by rw [exited]; rfl)
    have sent : state.parent.unsent argument = [] := by
      cases place : state.parent <;> simp [place, ParentPlace.writes, ParentPlace.unsent] at closed ⊢
    rw [exited, empty, sent, List.append_nil, List.append_nil,
      show ChildPlace.exited.held = [] from rfl, List.append_nil] at flow
    rw [exited, flow] at told
    cases buffering with
    | line => exact told.2
    | full => exact told.2
  · intro halted
    obtain ⟨returned, exited⟩ := halted_ends reached halted
    have parentTold := sound.parentTold
    rw [sound.flushed returned, returned, List.append_nil] at parentTold
    obtain ⟨empty, closed⟩ := sound.drained (by rw [exited]; rfl)
    refine ⟨returned, exited, parentTold, empty, ?_, ?_⟩
    · apply Finset.eq_empty_of_forall_notMem
      rintro (_ | _)
      · rw [sound.parentReads, returned]
        simp
      · rw [sound.childReads, exited]
        simp [ChildPlace.reads]
    · exact sound.writers.mpr ⟨closed, by simp [exited]⟩

end LinuxSystemPrograms.UnamedPipeTest
