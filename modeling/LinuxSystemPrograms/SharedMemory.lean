import LinuxSystemPrograms.CString
import LinuxSystemPrograms.Sockets
import LinuxSystemPrograms.Transition

/-!
# `shared_memory.c`

The parent sets up the object, `fork`s and copies a string into it; the child turns in a loop
until the first byte is set and prints what it finds. `strcpy` is one store for each byte,
first to last, and `printf` one load for each. A label says whether a call succeeds; a failed
`shm_open` is one that fails for another reason than `EEXIST`. A call that fails has no
effect. The child's `munmap` concerns its own mapping only and is one step, however it ends.
Lines about the progress carry no data and are left out.
-/

namespace LinuxSystemPrograms.SharedMemory

open LinuxSystemPrograms.CharArray
open LinuxSystemPrograms.CString
open LinuxSystemPrograms.Sockets
open LinuxSystemPrograms.Transition

set_option autoImplicit false

def shmSize : Nat := 1024

abbrev Memory := List.Vector Byte shmSize

/-- A string that `strcpy` can copy into the object. -/
structure Message where
  text : List Byte
  nulFree : 0 ∉ text
  nonempty : text ≠ []
  fits : text.length < shmSize

def message : Message where
  text := "Hello from parent process via shared memory!".toUTF8.data.toList
  nulFree := by decide +kernel
  nonempty := by decide +kernel
  fits := by decide +kernel

inductive Release where
  | close
  | munmap
  | unlink
  deriving DecidableEq, Repr

/-- The places named `abort` are the clean-up where `ftruncate`, `mmap` or `fork` has failed. -/
inductive ParentPlace where
  | shmOpen
  | unlinkStale
  | reopen
  | ftruncate
  | mmap
  | close
  | fork
  | strcpy (i : Nat)
  | waitpid
  | munmap
  | shmUnlink
  | abortClose
  | abortMunmap
  | abortUnlink
  | exited (success : Bool)
  deriving DecidableEq, Repr

/-- `print` is in the middle of the string, behind the bytes it has seen. -/
inductive ChildPlace where
  | absent
  | poll
  | print (seen : List Byte)
  | munmap
  | exited
  deriving DecidableEq, Repr

/-- `linked` is whether an object of the name exists, `mapped` whether the parent has it mapped.
`failed` are the calls that should have given something back and have not. -/
structure State where
  linked : Bool
  fdOpen : Bool
  mapped : Bool
  failed : List Release
  memory : Memory
  parent : ParentPlace
  child : ChildPlace
  printed : Option (List Byte)

inductive Label where
  | parent (success : Bool)
  | child
  deriving DecidableEq, Repr

def zeros : Memory := List.Vector.replicate shmSize 0

def State.give (state : State) : Release → State
  | .close => { state with fdOpen := false }
  | .munmap => { state with mapped := false }
  | .unlink => { state with linked := false }

/-- None of these calls is repeated when it fails. -/
def State.release (state : State) (call : Release) (success : Bool) (next : ParentPlace) : State :=
  if success then { state.give call with parent := next }
  else { state with failed := state.failed ++ [call], parent := next }

@[simp] theorem State.release_parent (state : State) (call : Release) (success : Bool)
    (next : ParentPlace) : (state.release call success next).parent = next := by
  cases success <;> rfl

@[simp] theorem State.release_child (state : State) (call : Release) (success : Bool)
    (next : ParentPlace) : (state.release call success next).child = state.child := by
  cases success <;> cases call <;> rfl

/-- `none` is a call that waits, or an access outside the object. -/
def parentStep (message : Message) (state : State) (success : Bool) : Option State :=
  match state.parent with
  | .shmOpen =>
      if success then
        if state.linked then some { state with parent := .unlinkStale }
        else some { state with linked := true, fdOpen := true, parent := .ftruncate }
      else some { state with parent := .exited false }
  | .unlinkStale =>
      -- the value of this `shm_unlink` is not looked at
      some { state with linked := state.linked && !success, parent := .reopen }
  | .reopen =>
      if success && !state.linked then
        some { state with linked := true, fdOpen := true, parent := .ftruncate }
      else some { state with parent := .exited false }
  | .ftruncate =>
      if success then some { state with memory := zeros, parent := .mmap }
      else some { state with parent := .abortClose }
  | .mmap =>
      if success then some { state with mapped := true, parent := .close }
      else some { state with parent := .abortClose }
  | .close => some (state.release .close success .fork)
  | .fork =>
      if success then some { state with child := .poll, parent := .strcpy 0 }
      else some { state with parent := .abortMunmap }
  | .strcpy i => do
      let byte ← (message.text ++ [0])[i]?
      let memory ← checkedMemcpy state.memory i [byte]
      return { state with
        memory := memory
        parent := if byte = 0 then .waitpid else .strcpy (i + 1) }
  | .waitpid =>
      -- after a failure the parent goes on, whatever the child does
      if success && state.child ≠ .exited then none else some { state with parent := .munmap }
  | .munmap => some (state.release .munmap success .shmUnlink)
  | .shmUnlink => some (state.release .unlink success (.exited true))
  | .abortClose => some (state.release .close success .abortUnlink)
  | .abortMunmap => some (state.release .munmap success .abortUnlink)
  | .abortUnlink => some (state.release .unlink success (.exited false))
  | .exited _ => none

def childStep (state : State) : Option State :=
  match state.child with
  | .absent => none
  | .poll => do
      let cell ← checkedCell state.memory 0
      return { state with child := if cell = 0 then .poll else .print [] }
  | .print seen => do
      let cell ← checkedCell state.memory seen.length
      return if cell = 0 then { state with printed := some seen, child := .munmap }
        else { state with child := .print (seen ++ [cell]) }
  | .munmap => some { state with child := .exited }
  | .exited => none

def advance (message : Message) (state : State) : Label → Option State
  | .parent success => parentStep message state success
  | .child => childStep state

/-- `stale` is whether an earlier run has left an object of the name. -/
def boot (stale : Bool) : State where
  linked := stale
  fdOpen := false
  mapped := false
  failed := []
  memory := zeros
  parent := .shmOpen
  child := .absent
  printed := none

def system (message : Message) (stale : Bool) : System State Label where
  init state := state = boot stale
  step state label after := advance message state label = some after

/-- A turn of the child's loop that finds the byte not set yet. -/
def Spins (state : State) (label : Label) : Prop :=
  label = .child ∧ state.child = .poll ∧ checkedCell state.memory 0 = some 0

/-! ## What every step keeps -/

namespace ParentPlace

def alone : ParentPlace → Bool
  | .strcpy _ | .waitpid | .munmap | .shmUnlink | .exited true => false
  | _ => true

def sized : ParentPlace → Bool
  | .mmap | .close | .fork | .strcpy _ | .waitpid | .munmap | .shmUnlink | .exited true => true
  | _ => false

def holdsFd : ParentPlace → Bool
  | .ftruncate | .mmap | .close | .abortClose => true
  | _ => false

def holdsMap : ParentPlace → Bool
  | .close | .fork | .strcpy _ | .waitpid | .munmap | .abortMunmap => true
  | _ => false

/-- An object of the name may exist that the program has made itself. -/
def owns : ParentPlace → Bool
  | .shmOpen | .unlinkStale | .reopen | .exited _ => false
  | _ => true

def stored (length : Nat) : ParentPlace → Nat
  | .strcpy i => i
  | .waitpid | .munmap | .shmUnlink | .exited true => length
  | _ => 0

end ParentPlace

structure Sound (message : Message) (stale : Bool) (state : State) : Prop where
  bound : ∀ i, state.parent = .strcpy i → i ≤ message.text.length
  memory : state.parent.sized = true → Padded 0 shmSize state.memory.toList
    (message.text.take (state.parent.stored message.text.length))
  fd : state.fdOpen = true → state.parent.holdsFd = true ∨ .close ∈ state.failed
  mapped : state.mapped = true → state.parent.holdsMap = true ∨ .munmap ∈ state.failed
  linked : state.linked = true → state.parent.owns = true ∨ .unlink ∈ state.failed ∨
    stale = true ∧ state.parent ≠ .exited true
  begun : state.child = .absent ↔ state.parent.alone = true
  seen : ∀ seen, state.child = .print seen → 0 < state.parent.stored message.text.length ∧
    seen.length ≤ state.parent.stored message.text.length ∧
    seen = message.text.take seen.length
  told : state.child = .munmap ∨ state.child = .exited ↔ state.printed ≠ none
  printed : ∀ text, state.printed = some text → text ≠ [] ∧ text <+: message.text

variable {message : Message} {stale : Bool} {state after : State}

theorem boot_sound (message : Message) (stale : Bool) : Sound message stale (boot stale) where
  bound := by rintro _ ⟨⟩
  memory := by rintro ⟨⟩
  fd := by rintro ⟨⟩
  mapped := by rintro ⟨⟩
  linked left := Or.inr (Or.inr ⟨left, by simp [boot]⟩)
  begun := iff_of_true rfl rfl
  seen := by rintro _ ⟨⟩
  told := by simp [boot]
  printed := by rintro _ ⟨⟩

/-- A step of the parent before there is a child. -/
theorem Sound.set_up (sound : Sound message stale state) (alone : state.parent.alone = true)
    {linked fdOpen mapped : Bool} {memory : Memory} {place : ParentPlace}
    (still : place.alone = true)
    (padded : place.sized = true → Padded 0 shmSize memory.toList [])
    (fd : fdOpen = true → place.holdsFd = true ∨ .close ∈ state.failed)
    (map : mapped = true → place.holdsMap = true ∨ .munmap ∈ state.failed)
    (left : linked = true → place.owns = true ∨ .unlink ∈ state.failed ∨ stale = true) :
    Sound message stale { state with
      linked := linked
      fdOpen := fdOpen
      mapped := mapped
      memory := memory
      parent := place } := by
  have absent : state.child = .absent := sound.begun.mpr alone
  have nothing : place.stored message.text.length = 0 := by
    cases place with
    | exited success =>
        cases success with
        | false => rfl
        | true => cases still
    | strcpy i => cases still
    | waitpid => cases still
    | munmap => cases still
    | shmUnlink => cases still
    | _ => rfl
  have running : place ≠ .exited true := by
    rintro rfl
    cases still
  constructor
  case bound =>
    rintro i rfl
    cases still
  case memory =>
    intro sized
    rw [nothing, List.take_zero]
    exact padded sized
  case fd => exact fd
  case mapped => exact map
  case linked =>
    exact fun made => (left made).imp id fun kept => kept.imp id fun old => ⟨old, running⟩
  case begun => exact iff_of_true absent still
  case seen =>
    intro seen reading
    rw [absent] at reading
    cases reading
  case told => exact sound.told
  case printed => exact sound.printed

/-- A call that gives something back has given it back or is among the failed ones. -/
theorem Sound.release (sound : Sound message stale state) (call : Release) (success : Bool)
    {place : ParentPlace} (moved : ∀ i, place ≠ .strcpy i)
    (sized : place.sized = true → state.parent.sized = true)
    (stored : place.stored message.text.length = state.parent.stored message.text.length)
    (alone : place.alone = state.parent.alone)
    (fd : call ≠ .close → state.parent.holdsFd = true → place.holdsFd = true)
    (map : call ≠ .munmap → state.parent.holdsMap = true → place.holdsMap = true)
    (owns : call ≠ .unlink → place.owns = true) :
    Sound message stale (state.release call success place) := by
  have memory : place.sized = true → Padded 0 shmSize state.memory.toList
      (message.text.take (place.stored message.text.length)) := by
    intro large
    rw [stored]
    exact sound.memory (sized large)
  have begun : state.child = .absent ↔ place.alone = true := by
    rw [alone]
    exact sound.begun
  have seen := sound.seen
  rw [← stored] at seen
  cases success with
  | true =>
      rw [State.release, if_pos rfl]
      cases call with
      | close =>
          exact { sound with
            bound := fun i at' => absurd at' (moved i)
            memory := memory
            begun := begun
            seen := seen
            fd := by rintro ⟨⟩
            mapped := fun left => (sound.mapped left).imp_left (map (by decide))
            linked := fun _ => Or.inl (owns (by decide)) }
      | munmap =>
          exact { sound with
            bound := fun i at' => absurd at' (moved i)
            memory := memory
            begun := begun
            seen := seen
            fd := fun left => (sound.fd left).imp_left (fd (by decide))
            mapped := by rintro ⟨⟩
            linked := fun _ => Or.inl (owns (by decide)) }
      | unlink =>
          exact { sound with
            bound := fun i at' => absurd at' (moved i)
            memory := memory
            begun := begun
            seen := seen
            fd := fun left => (sound.fd left).imp_left (fd (by decide))
            mapped := fun left => (sound.mapped left).imp_left (map (by decide))
            linked := by rintro ⟨⟩ }
  | false =>
      rw [State.release, if_neg Bool.false_ne_true]
      have kept : ∀ {other : Release}, other ∈ state.failed → other ∈ state.failed ++ [call] :=
        List.mem_append_left _
      have noted : call ∈ state.failed ++ [call] :=
        List.mem_append_right _ (List.mem_singleton_self _)
      refine { sound with
        bound := fun i at' => absurd at' (moved i)
        memory := memory
        begun := begun
        seen := seen
        fd := fun left => ?_
        mapped := fun left => ?_
        linked := fun _ => ?_ }
      · by_cases own : call = .close
        · exact Or.inr (own ▸ noted)
        · exact (sound.fd left).imp (fd own) kept
      · by_cases own : call = .munmap
        · exact Or.inr (own ▸ noted)
        · exact (sound.mapped left).imp (map own) kept
      · by_cases own : call = .unlink
        · exact Or.inr (Or.inl (own ▸ noted))
        · exact Or.inl (owns own)

theorem zeros_padded : Padded 0 shmSize zeros.toList [] := Padded.zeros 0 (by decide)

/-- Outside the object `strcpy` never stores. -/
theorem strcpy_sound {i : Nat} (sound : Sound message stale state)
    (place : state.parent = .strcpy i) {success : Bool}
    (taken : parentStep message state success = some after) : Sound message stale after := by
  have within := sound.bound i place
  have fits := message.fits
  have memory := sound.memory
  have fd := sound.fd
  have mapped := sound.mapped
  have linked := sound.linked
  have begun := sound.begun
  have seen := sound.seen
  rw [place] at memory fd mapped linked begun seen
  have padded := memory rfl
  simp only [ParentPlace.stored] at padded seen
  have length : (message.text.take i).length = i := List.length_take_of_le within
  have inside : i + [(0 : Byte)].length ≤ shmSize := by
    rw [List.length_singleton]
    omega
  simp only [parentStep, place, Option.bind_eq_bind] at taken
  by_cases last : i = message.text.length
  · have stored : (message.text ++ [0])[i]? = some 0 := by
      rw [last, List.getElem?_append_right (Nat.le_refl _)]
      simp
    rw [stored, Option.bind_some, checked_memcpy_inside state.memory inside] at taken
    simp only [Option.bind_some, if_true, Option.pure_def, Option.some.injEq] at taken
    subst taken
    have whole : message.text.take i = message.text := List.take_of_length_le (Nat.le_of_eq last.symm)
    rw [whole] at padded length
    have ended := padded.store_end (by rw [length]; exact inside)
    simp only [length] at ended
    refine { sound with bound := ?_, memory := ?_, fd := fd, mapped := mapped, linked := ?_,
                        begun := begun, seen := ?_ }
    · rintro _ ⟨⟩
    · intro _
      simp only [ParentPlace.stored, List.take_length]
      exact ended
    · exact fun _ => Or.inl rfl
    · intro bytes reading
      simp only [ParentPlace.stored]
      rw [← last]
      exact seen bytes reading
  · have less : i < message.text.length := by omega
    have visible : message.text[i] ≠ 0 := fun zero => message.nulFree
      (zero ▸ List.getElem_mem less)
    have stored : (message.text ++ [0])[i]? = some message.text[i] := by
      rw [List.getElem?_append_left less, List.getElem?_eq_getElem less]
    have room : i + [message.text[i]].length ≤ shmSize := inside
    rw [stored, Option.bind_some, checked_memcpy_inside state.memory room] at taken
    simp only [Option.bind_some, if_neg visible, Option.pure_def, Option.some.injEq] at taken
    subst taken
    have grown := padded.store visible (by omega) (by rw [length]; exact inside)
    simp only [length] at grown
    refine { sound with bound := ?_, memory := ?_, fd := fd, mapped := mapped, linked := ?_,
                        begun := begun, seen := ?_ }
    · rintro _ ⟨⟩
      exact less
    · intro _
      simp only [ParentPlace.stored]
      rw [List.take_succ_eq_append_getElem less]
      exact grown
    · exact fun _ => Or.inl rfl
    · intro bytes reading
      obtain ⟨some, short, same⟩ := seen bytes reading
      exact ⟨Nat.succ_pos i, Nat.le_succ_of_le short, same⟩

theorem shm_open_sound {success : Bool} (sound : Sound message stale state)
    (place : state.parent = .shmOpen) (taken : parentStep message state success = some after) :
    Sound message stale after := by
  have fd := sound.fd
  have mapped := sound.mapped
  have linked := sound.linked
  rw [place] at fd mapped linked
  have old : state.linked = true → ∀ later : ParentPlace, later.owns = true ∨
      Release.unlink ∈ state.failed ∨ stale = true := fun left _ =>
    Or.inr (((linked left).resolve_left (by simp [ParentPlace.owns])).imp id And.left)
  have noFd : state.fdOpen = true → ∀ later : ParentPlace, later.holdsFd = true ∨
      Release.close ∈ state.failed := fun left _ =>
    Or.inr ((fd left).resolve_left (by simp [ParentPlace.holdsFd]))
  have noMap : state.mapped = true → ∀ later : ParentPlace, later.holdsMap = true ∨
      Release.munmap ∈ state.failed := fun left _ =>
    Or.inr ((mapped left).resolve_left (by simp [ParentPlace.holdsMap]))
  simp only [parentStep, place] at taken
  split_ifs at taken with works exists'
  · cases taken
    exact sound.set_up (by rw [place]; rfl) rfl (by rintro ⟨⟩) (noFd · _) (noMap · _) (old · _)
  · cases taken
    exact sound.set_up (by rw [place]; rfl) rfl (by rintro ⟨⟩) (fun _ => Or.inl rfl) (noMap · _)
      fun _ => Or.inl rfl
  · cases taken
    exact sound.set_up (by rw [place]; rfl) rfl (by rintro ⟨⟩) (noFd · _) (noMap · _) (old · _)

theorem fork_sound {success : Bool} (sound : Sound message stale state)
    (place : state.parent = .fork) (taken : parentStep message state success = some after) :
    Sound message stale after := by
  have memory := sound.memory
  have fd := sound.fd
  have mapped := sound.mapped
  have begun := sound.begun
  rw [place] at memory fd mapped begun
  have absent := begun.mpr rfl
  simp only [parentStep, place] at taken
  split_ifs at taken
  · cases taken
    refine { sound with bound := ?_, memory := memory, fd := fd, mapped := mapped, linked := ?_,
                        begun := ?_, seen := ?_, told := ?_ }
    · rintro _ ⟨⟩
      exact Nat.zero_le _
    · exact fun _ => Or.inl rfl
    · exact iff_of_false (by simp) (by simp [ParentPlace.alone])
    · rintro _ ⟨⟩
    · have told := sound.told
      rw [absent] at told
      simpa using told
  · cases taken
    exact sound.set_up (by rw [place]; rfl) rfl (by rintro ⟨⟩) fd mapped fun _ => Or.inl rfl

theorem parent_sound {success : Bool} (sound : Sound message stale state)
    (taken : parentStep message state success = some after) : Sound message stale after := by
  have memory := sound.memory
  have fd := sound.fd
  have mapped := sound.mapped
  have linked := sound.linked
  have begun := sound.begun
  have seen := sound.seen
  cases place : state.parent with
  | strcpy i => exact strcpy_sound sound place taken
  | exited ended => simp [parentStep, place] at taken
  | shmOpen => exact shm_open_sound sound place taken
  | unlinkStale =>
      rw [place] at fd mapped linked
      simp only [parentStep, place] at taken
      cases taken
      refine sound.set_up (by rw [place]; rfl) rfl (by rintro ⟨⟩) fd mapped fun left => ?_
      rw [Bool.and_eq_true] at left
      exact (linked left.1).imp id fun kept => kept.imp id And.left
  | reopen =>
      rw [place] at fd mapped linked
      simp only [parentStep, place] at taken
      split_ifs at taken
      · cases taken
        exact sound.set_up (by rw [place]; rfl) rfl (by rintro ⟨⟩) (fun _ => Or.inl rfl) mapped
          fun _ => Or.inl rfl
      · cases taken
        exact sound.set_up (by rw [place]; rfl) rfl (by rintro ⟨⟩) fd mapped fun left =>
          (linked left).imp id fun kept => kept.imp id And.left
  | ftruncate =>
      rw [place] at fd mapped
      simp only [parentStep, place] at taken
      split_ifs at taken
      · cases taken
        exact sound.set_up (by rw [place]; rfl) rfl (fun _ => zeros_padded) fd mapped
          fun _ => Or.inl rfl
      · cases taken
        exact sound.set_up (by rw [place]; rfl) rfl (by rintro ⟨⟩) fd mapped fun _ => Or.inl rfl
  | mmap =>
      rw [place] at memory fd mapped
      simp only [parentStep, place] at taken
      split_ifs at taken
      · cases taken
        exact sound.set_up (by rw [place]; rfl) rfl (fun _ => memory rfl) fd (fun _ => Or.inl rfl)
          fun _ => Or.inl rfl
      · cases taken
        exact sound.set_up (by rw [place]; rfl) rfl (by rintro ⟨⟩) fd mapped fun _ => Or.inl rfl
  | fork => exact fork_sound sound place taken
  | waitpid =>
      rw [place] at memory fd mapped begun seen
      simp only [parentStep, place] at taken
      split_ifs at taken
      cases taken
      exact { sound with bound := by rintro _ ⟨⟩, memory := memory, fd := fd, mapped := mapped,
                         linked := fun _ => Or.inl rfl, begun := begun, seen := seen }
  | _ =>
      -- the calls that give something back
      simp only [parentStep, place, Option.some.injEq] at taken
      subst taken
      apply sound.release <;> simp [place, ParentPlace.sized, ParentPlace.stored, ParentPlace.alone,
        ParentPlace.holdsFd, ParentPlace.holdsMap, ParentPlace.owns]

theorem Sound.sized (sound : Sound message stale state) (present : state.child ≠ .absent) :
    state.parent.sized = true := by
  have started := mt sound.begun.mpr present
  cases place : state.parent with
  | exited success =>
      cases success <;> simp [place, ParentPlace.alone, ParentPlace.sized] at started ⊢
  | _ => simp [place, ParentPlace.alone, ParentPlace.sized] at started ⊢

theorem stored_le (sound : Sound message stale state) :
    state.parent.stored message.text.length ≤ message.text.length := by
  have bound := sound.bound
  unfold ParentPlace.stored
  split
  · exact bound _ ‹_›
  all_goals simp

/-- A byte of the string is seen exactly where `strcpy` has been. -/
theorem load_cases (sound : Sound message stale state) (present : state.child ≠ .absent)
    {index : Nat} (within : index ≤ state.parent.stored message.text.length) :
    (index = state.parent.stored message.text.length ∧
        checkedCell state.memory index = some 0) ∨
      ∃ byte, byte ≠ 0 ∧ index < state.parent.stored message.text.length ∧
        checkedCell state.memory index = some byte ∧
        message.text.take index ++ [byte] = message.text.take (index + 1) := by
  have fits := message.fits
  have whole := stored_le sound
  have padded := sound.memory (sound.sized present)
  have cell := padded.cell (show index < shmSize by omega)
  by_cases last : index = state.parent.stored message.text.length
  · left
    have behind : (message.text.take (state.parent.stored message.text.length))[index]? = none := by
      rw [List.getElem?_eq_none_iff, List.length_take]
      omega
    rw [behind] at cell
    exact ⟨last, cell⟩
  · right
    have less : index < message.text.length := by omega
    have inside : (message.text.take (state.parent.stored message.text.length))[index]? =
        some message.text[index] := by
      rw [List.getElem?_take_of_lt (by omega), List.getElem?_eq_getElem less]
    rw [inside] at cell
    refine ⟨message.text[index], ?_, by omega, cell, ?_⟩
    · exact fun zero => message.nulFree (zero ▸ List.getElem_mem less)
    · exact (List.take_succ_eq_append_getElem less).symm

theorem child_sound (sound : Sound message stale state) (taken : childStep state = some after) :
    Sound message stale after := by
  have told := sound.told
  have still : state.child ≠ .absent → ∀ later : ChildPlace, later ≠ .absent →
      (later = .absent ↔ state.parent.alone = true) := fun present later other =>
    iff_of_false other (mt sound.begun.mpr present)
  unfold childStep at taken
  split at taken
  case h_1 place => cases taken
  case h_2 place =>
    have present : state.child ≠ .absent := by simp [place]
    rw [place] at told
    obtain ⟨cell, loaded, same⟩ := Option.bind_eq_some_iff.mp taken
    cases same
    rcases load_cases sound present (Nat.zero_le _) with ⟨_, zero⟩ | ⟨byte, visible, some, found, _⟩
    · rw [zero] at loaded
      cases loaded
      refine { sound with begun := still present _ (by simp), seen := ?_, told := told }
      rintro _ ⟨⟩
    · rw [found] at loaded
      cases loaded
      rw [if_neg visible]
      refine { sound with begun := still present _ (by simp), seen := ?_, told := ?_ }
      · rintro _ ⟨⟩
        exact ⟨some, Nat.zero_le _, rfl⟩
      · simpa using told
  case h_3 seen place =>
    have present : state.child ≠ .absent := by simp [place]
    obtain ⟨some, within, part⟩ := sound.seen seen place
    rw [place] at told
    obtain ⟨cell, loaded, same⟩ := Option.bind_eq_some_iff.mp taken
    rcases load_cases sound present within with ⟨last, zero⟩ | ⟨byte, visible, less, found, grown⟩
    · rw [zero] at loaded
      cases loaded
      rw [if_pos rfl] at same
      cases same
      refine { sound with begun := still present _ (by simp), seen := ?_, told := ?_,
                          printed := ?_ }
      · rintro _ ⟨⟩
      · simp
      · rintro _ ⟨⟩
        constructor
        · rintro rfl
          simp only [List.length_nil] at last
          omega
        · rw [part]
          exact List.take_prefix _ _
    · rw [found] at loaded
      cases loaded
      rw [if_neg visible] at same
      cases same
      refine { sound with begun := still present _ (by simp), seen := ?_, told := ?_ }
      · rintro _ ⟨⟩
        refine ⟨some, ?_, ?_⟩
        · rw [List.length_append, List.length_singleton]
          exact less
        · rw [List.length_append, List.length_singleton, ← grown, ← part]
      · simpa using told
  case h_4 place =>
    rw [place] at told
    cases taken
    refine { sound with begun := still (by simp [place]) _ (by simp), seen := ?_, told := ?_ }
    · rintro _ ⟨⟩
    · simpa using told
  case h_5 place => cases taken

theorem reachable_sound (reached : Reachable (system message stale) state) :
    Sound message stale state := by
  apply reachable_invariant _ _ reached
  · rintro _ rfl
    exact boot_sound message stale
  · intro state label after _ sound taken
    cases label with
    | parent success => exact parent_sound sound taken
    | child => exact child_sound sound taken

/-! ## The end of a run -/

def ParentPlace.steps (length : Nat) : ParentPlace → Nat
  | .shmOpen => 2 * length + 16
  | .unlinkStale => 2 * length + 15
  | .reopen => 2 * length + 14
  | .ftruncate => 2 * length + 13
  | .mmap => 2 * length + 12
  | .close => 2 * length + 11
  | .fork => 2 * length + 10
  | .strcpy i => length - i + 4
  | .waitpid => 3
  | .munmap => 2
  | .shmUnlink => 1
  | .abortClose => 2
  | .abortMunmap => 2
  | .abortUnlink => 1
  | .exited _ => 0

def ChildPlace.steps (length : Nat) : ChildPlace → Nat
  | .absent => 0
  | .poll => length + 3
  | .print seen => length - seen.length + 2
  | .munmap => 1
  | .exited => 0

def State.work (message : Message) (state : State) : Nat :=
  state.parent.steps message.text.length + state.child.steps message.text.length

theorem parent_lowers_work {success : Bool} (sound : Sound message stale state)
    (taken : parentStep message state success = some after) :
    after.work message < state.work message := by
  cases place : state.parent with
  | strcpy i =>
      have within := sound.bound i place
      simp only [parentStep, place, Option.bind_eq_bind] at taken
      obtain ⟨byte, stored, rest⟩ := Option.bind_eq_some_iff.mp taken
      obtain ⟨memory, _, same⟩ := Option.bind_eq_some_iff.mp rest
      cases same
      simp only [State.work, place]
      split_ifs with last
      · simp only [ParentPlace.steps]
        omega
      · have less : i < message.text.length := by
          by_contra reached
          have ended : i = message.text.length := by omega
          rw [ended, List.getElem?_append_right (Nat.le_refl _)] at stored
          simp only [Nat.sub_self, List.getElem?_cons_zero, Option.some.injEq] at stored
          exact last stored.symm
        simp only [ParentPlace.steps]
        omega
  | fork =>
      simp only [parentStep, place] at taken
      split_ifs at taken
      · cases taken
        simp only [State.work, place, ParentPlace.steps, ChildPlace.steps]
        omega
      · cases taken
        simp only [State.work, place, ParentPlace.steps]
        omega
  | waitpid =>
      simp only [parentStep, place] at taken
      split_ifs at taken
      cases taken
      simp only [State.work, place, ParentPlace.steps]
      omega
  | exited ended => simp [parentStep, place] at taken
  | shmOpen | unlinkStale | reopen | ftruncate | mmap =>
      simp only [parentStep, place] at taken
      repeat' split at taken
      all_goals
        cases taken
        simp only [State.work, place, ParentPlace.steps]
        omega
  | _ =>
      simp only [parentStep, place, Option.some.injEq] at taken
      subst taken
      simp only [State.work, State.release_parent, State.release_child, place, ParentPlace.steps]
      omega

theorem child_lowers_work (sound : Sound message stale state)
    (taken : childStep state = some after) (turns : ¬ Spins state .child) :
    after.work message < state.work message := by
  have whole := stored_le sound
  unfold childStep at taken
  split at taken
  case h_1 place => cases taken
  case h_2 place =>
    obtain ⟨cell, loaded, same⟩ := Option.bind_eq_some_iff.mp taken
    cases same
    have set : cell ≠ 0 := by
      rintro rfl
      exact turns ⟨rfl, place, loaded⟩
    simp only [State.work, place, if_neg set, ChildPlace.steps, List.length_nil]
    omega
  case h_3 seen place =>
    have present : state.child ≠ .absent := by simp [place]
    obtain ⟨some, within, part⟩ := sound.seen seen place
    obtain ⟨cell, loaded, same⟩ := Option.bind_eq_some_iff.mp taken
    rcases load_cases sound present within with ⟨last, zero⟩ | ⟨byte, visible, less, found, _⟩
    · rw [zero] at loaded
      cases loaded
      rw [if_pos rfl] at same
      cases same
      simp only [State.work, place, ChildPlace.steps]
      omega
    · rw [found] at loaded
      cases loaded
      rw [if_neg visible] at same
      cases same
      simp only [State.work, place, ChildPlace.steps, List.length_append, List.length_singleton]
      omega
  case h_4 place =>
    cases taken
    simp only [State.work, place, ChildPlace.steps]
    omega
  case h_5 place => cases taken

theorem step_lowers_work (before : State) (label : Label) (later : State)
    (reached : Reachable (system message stale) before)
    (taken : (system message stale).step before label later) (turns : ¬ Spins before label) :
    later.work message < before.work message := by
  cases label with
  | parent success => exact parent_lowers_work (reachable_sound reached) taken
  | child => exact child_lowers_work (reachable_sound reached) taken turns

theorem halted_exited (reached : Reachable (system message stale) state)
    (halted : Halted (system message stale) state) :
    ∃ success, state.parent = .exited success ∧
      (success = true → state.child = .exited ∧ state.printed ≠ none) := by
  have sound := reachable_sound reached
  have parentStuck : parentStep message state true = none :=
    Option.eq_none_iff_forall_not_mem.mpr fun after taken => halted (.parent true) after taken
  have childStuck : childStep state = none :=
    Option.eq_none_iff_forall_not_mem.mpr fun after taken => halted .child after taken
  have childEnds : state.child = .absent ∨ state.child = .exited := by
    cases place : state.child with
    | absent => exact Or.inl rfl
    | exited => exact Or.inr rfl
    | munmap => simp [childStep, place] at childStuck
    | poll =>
        rcases load_cases sound (by simp [place]) (Nat.zero_le _) with
          ⟨_, zero⟩ | ⟨byte, _, _, found, _⟩
        · simp [childStep, place, zero] at childStuck
        · simp [childStep, place, found] at childStuck
    | print seen =>
        rcases load_cases sound (by simp [place]) (sound.seen seen place).2.1 with
          ⟨_, zero⟩ | ⟨byte, _, _, found, _⟩
        · simp [childStep, place, zero] at childStuck
        · simp [childStep, place, found] at childStuck
  have told : state.child = .exited → state.printed ≠ none := fun gone =>
    sound.told.mp (Or.inr gone)
  have alone : state.child = .absent → state.parent.alone = true := sound.begun.mp
  cases place : state.parent with
  | exited success =>
      refine ⟨success, rfl, fun ended => ?_⟩
      rw [place, ended] at alone
      have gone := childEnds.resolve_left fun absent => Bool.false_ne_true (alone absent)
      exact ⟨gone, told gone⟩
  | waitpid =>
      rcases childEnds with absent | gone
      · simp [place, ParentPlace.alone, absent] at alone
      · simp [parentStep, place, gone] at parentStuck
  | strcpy i =>
      have within := sound.bound i place
      have fits := message.fits
      have stored : i < (message.text ++ [0]).length := by
        rw [List.length_append, List.length_singleton]
        omega
      have inside : i + [(message.text ++ [0])[i]].length ≤ shmSize := by
        rw [List.length_singleton]
        omega
      simp [parentStep, place, List.getElem?_eq_getElem stored,
        checked_memcpy_inside state.memory inside] at parentStuck
  | shmOpen =>
      simp only [parentStep, place] at parentStuck
      split_ifs at parentStuck
  | unlinkStale => simp [parentStep, place] at parentStuck
  | reopen =>
      simp only [parentStep, place] at parentStuck
      split_ifs at parentStuck
  | ftruncate => simp [parentStep, place] at parentStuck
  | mmap => simp [parentStep, place] at parentStuck
  | close => simp [parentStep, place] at parentStuck
  | fork => simp [parentStep, place] at parentStuck
  | munmap => simp [parentStep, place] at parentStuck
  | shmUnlink => simp [parentStep, place] at parentStuck
  | abortClose => simp [parentStep, place] at parentStuck
  | abortMunmap => simp [parentStep, place] at parentStuck
  | abortUnlink => simp [parentStep, place] at parentStuck

/-! ## What the child can print -/

theorem exists_forked (message : Message) (stale : Bool) :
    ∃ state, Reachable (system message stale) state ∧ state.parent = .strcpy 0 ∧
      state.child = .poll := by
  have opened : ∃ state, Reachable (system message stale) state ∧ state.parent = .ftruncate := by
    cases stale with
    | false =>
        exact ⟨_, .next (.parent true) (.start rfl) rfl, rfl⟩
    | true =>
        exact ⟨_, .next (.parent true) (.next (.parent true) (.next (.parent true) (.start rfl) rfl)
          rfl) rfl, rfl⟩
  obtain ⟨state, reached, place⟩ := opened
  have step : ∀ {before after : State}, Reachable (system message stale) before →
      parentStep message before true = some after → Reachable (system message stale) after :=
    fun earlier taken => .next (.parent true) earlier taken
  have sized := step reached (by simp only [parentStep, place, if_true]; rfl)
  have mapped := step sized rfl
  have closed := step mapped rfl
  have forked := step closed rfl
  exact ⟨_, forked, rfl, rfl⟩

theorem exists_stored (message : Message) (stale : Bool) {count : Nat}
    (within : count ≤ message.text.length) :
    ∃ state, Reachable (system message stale) state ∧ state.parent = .strcpy count ∧
      state.child = .poll := by
  induction count with
  | zero => exact exists_forked message stale
  | succ count ih =>
      obtain ⟨state, reached, place, polls⟩ := ih (Nat.le_of_succ_le within)
      have fits := message.fits
      have less : count < message.text.length := within
      have visible : message.text[count] ≠ 0 := fun zero => message.nulFree
        (zero ▸ List.getElem_mem less)
      have inside : count + [message.text[count]].length ≤ shmSize := by
        rw [List.length_singleton]
        omega
      have taken : parentStep message state true = some { state with
          memory := memcpy state.memory count [message.text[count]] inside
          parent := .strcpy (count + 1) } := by
        simp [parentStep, place, List.getElem?_append_left less, List.getElem?_eq_getElem less,
          checked_memcpy_inside state.memory inside, visible]
      exact ⟨_, .next (.parent true) reached taken, rfl, polls⟩

/-- The child in the middle of what is stored. -/
theorem exists_scanned (message : Message) (stale : Bool) {count seen : Nat} (some : 0 < count)
    (within : count ≤ message.text.length) (part : seen ≤ count) :
    ∃ state, Reachable (system message stale) state ∧ state.parent = .strcpy count ∧
      state.child = .print (message.text.take seen) := by
  induction seen with
  | zero =>
      obtain ⟨state, reached, place, polls⟩ := exists_stored message stale within
      rcases load_cases (reachable_sound reached) (by simp [polls]) (Nat.zero_le _) with
        ⟨none, _⟩ | ⟨byte, visible, _, found, _⟩
      · rw [place, ParentPlace.stored] at none
        omega
      · have taken : childStep state = .some { state with child := .print [] } := by
          simp [childStep, polls, found, visible]
        exact ⟨_, .next .child reached taken, place, rfl⟩
  | succ seen ih =>
      obtain ⟨state, reached, place, prints⟩ := ih (Nat.le_of_succ_le part)
      have length : (message.text.take seen).length = seen := List.length_take_of_le (by omega)
      rcases load_cases (reachable_sound reached) (by simp [prints])
          (by rw [place, ParentPlace.stored]; omega : seen ≤ _) with
        ⟨last, _⟩ | ⟨byte, visible, _, found, grown⟩
      · rw [place, ParentPlace.stored] at last
        omega
      · have taken : childStep state = .some { state with
            child := .print (message.text.take (seen + 1)) } := by
          simp [childStep, prints, length, found, visible, grown]
        exact ⟨_, .next .child reached taken, place, rfl⟩

theorem exists_printed (message : Message) (stale : Bool) {text : List Byte}
    (nonempty : text ≠ []) (part : text <+: message.text) :
    ∃ state, Reachable (system message stale) state ∧ state.printed = some text := by
  have within := part.length_le
  have front : message.text.take text.length = text := (List.prefix_iff_eq_take.mp part).symm
  obtain ⟨state, reached, place, prints⟩ := exists_scanned message stale
    (List.length_pos_iff.mpr nonempty) within (Nat.le_refl _)
  rw [front] at prints
  rcases load_cases (reachable_sound reached) (by simp [prints])
      (by rw [place, ParentPlace.stored] : text.length ≤ _) with ⟨_, zero⟩ | ⟨_, _, less, _, _⟩
  · have taken : childStep state = some { state with
        printed := some text
        child := .munmap } := by
      simp [childStep, prints, zero]
    exact ⟨_, .next .child reached taken, rfl⟩
  · rw [place, ParentPlace.stored] at less
    exact absurd less (Nat.lt_irrefl _)

/-- The first byte tells the child to read before the string is there: what it can print is
exactly every nonempty part of the string from its start. Only a scheduler that leaves it
turning in its loop for ever keeps a run from ending. Whichever calls fail, what the parent has
taken is given back at its exit, unless the call that gives it back is among them. -/
theorem printed_part (message : Message) (stale : Bool) :
    (∀ states, InfiniteRun (system message stale) states → ∀ start, ∃ index label,
      start ≤ index ∧ Spins (states index) label ∧
      (system message stale).step (states index) label (states (index + 1))) ∧
    (∀ text, (∃ state, Reachable (system message stale) state ∧ state.printed = some text) ↔
      text ≠ [] ∧ text <+: message.text) ∧
    ∀ state, Reachable (system message stale) state →
      (∀ success, state.parent = .exited success →
        (state.fdOpen = true → .close ∈ state.failed) ∧
          (state.mapped = true → .munmap ∈ state.failed) ∧
          (state.linked = true → .unlink ∈ state.failed ∨ success = false ∧ stale = true)) ∧
      (Halted (system message stale) state → ∃ success, state.parent = .exited success ∧
        (success = true → state.child = .exited ∧ state.printed ≠ none)) := by
  refine ⟨fun states endless => infinite_run_recurs (State.work message) step_lowers_work endless,
    fun text => ⟨?_, ?_⟩, fun state reached => ⟨?_, halted_exited reached⟩⟩
  · rintro ⟨state, reached, shows⟩
    exact (reachable_sound reached).printed text shows
  · rintro ⟨nonempty, part⟩
    exact exists_printed message stale nonempty part
  · intro success place
    have sound := reachable_sound reached
    have linked := sound.linked
    rw [place] at linked
    refine ⟨fun left => ?_, fun left => ?_, fun left => ?_⟩
    · exact (sound.fd left).resolve_left (by rw [place]; exact Bool.false_ne_true)
    · exact (sound.mapped left).resolve_left (by rw [place]; exact Bool.false_ne_true)
    · refine ((linked left).resolve_left Bool.false_ne_true).imp id ?_
      rintro ⟨old, unfinished⟩
      cases success with
      | false => exact ⟨rfl, old⟩
      | true => exact absurd rfl unfinished

example : ∃ state, Reachable (system SharedMemory.message true) state ∧
    state.printed = some [72, 101] :=
  exists_printed _ true (by decide) (by decide +kernel)

end LinuxSystemPrograms.SharedMemory
