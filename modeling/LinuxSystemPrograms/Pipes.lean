import Mathlib.Data.Finset.Basic

/-!
# Pipes

A bounded queue of cells with two ends that several parties may hold open. `read` waits
while the pipe is empty and someone can still write; after that it returns nothing. A
`write` of at most `pipeBuf` cells goes in as a whole, a longer one in parts as there is
room. The bound is a field, so that no operation overfills the pipe.
-/

namespace LinuxSystemPrograms.Pipes

set_option autoImplicit false

structure Limits where
  capacity : Nat
  pipeBuf : Nat
  positive : 0 < pipeBuf
  fits : pipeBuf ≤ capacity

structure Pipe (Party Cell : Type*) (limits : Limits) where
  cells : List Cell
  bounded : cells.length ≤ limits.capacity
  readers : Finset Party
  writers : Finset Party

variable {Party Cell : Type*} {limits : Limits}

namespace Pipe

/-- `none` is a reader that waits. -/
def read [DecidableEq Cell] (pipe : Pipe Party Cell limits) (asked : Nat) :
    Option (List Cell × Pipe Party Cell limits) :=
  if pipe.cells = [] ∧ pipe.writers.Nonempty then none
  else some (pipe.cells.take asked, { pipe with
    cells := pipe.cells.drop asked
    bounded := by
      have := pipe.bounded
      rw [List.length_drop]
      omega })

/-- The next `count` cells of a `write` of `total` cells of which `rest` is still to go; `none`
is a writer that waits, or a part that the kernel does not take. -/
def write (pipe : Pipe Party Cell limits) (total : Nat) (rest : List Cell) (count : Nat) :
    Option (List Cell × Pipe Party Cell limits) :=
  if room : pipe.cells.length + (rest.take count).length ≤ limits.capacity then
    if 0 < count ∧ count ≤ rest.length ∧ (total ≤ limits.pipeBuf → count = total) then
      some (rest.drop count, { pipe with
        cells := pipe.cells ++ rest.take count
        bounded := by rwa [List.length_append] })
    else none
  else none

def closeRead [DecidableEq Party] (pipe : Pipe Party Cell limits) (party : Party) :
    Pipe Party Cell limits :=
  { pipe with readers := pipe.readers.erase party }

def closeWrite [DecidableEq Party] (pipe : Pipe Party Cell limits) (party : Party) :
    Pipe Party Cell limits :=
  { pipe with writers := pipe.writers.erase party }

theorem read_blocks [DecidableEq Cell] {pipe : Pipe Party Cell limits} {asked : Nat} :
    pipe.read asked = none ↔ pipe.cells = [] ∧ pipe.writers.Nonempty := by
  unfold read
  split_ifs with blocked
  · simp [blocked]
  · simp [blocked]

theorem read_takes [DecidableEq Cell] {pipe after : Pipe Party Cell limits} {asked : Nat}
    {taken : List Cell} (result : pipe.read asked = some (taken, after)) :
    taken ++ after.cells = pipe.cells ∧ taken.length ≤ asked ∧
      after.readers = pipe.readers ∧ after.writers = pipe.writers := by
  unfold read at result
  split_ifs at result
  cases result
  exact ⟨List.take_append_drop asked pipe.cells, List.length_take_le asked pipe.cells, rfl, rfl⟩

/-- The end of the input is seen only when nobody can write any more. -/
theorem read_end [DecidableEq Cell] {pipe after : Pipe Party Cell limits} {asked : Nat}
    (some : 0 < asked) (result : pipe.read asked = .some ([], after)) :
    pipe.cells = [] ∧ pipe.writers = ∅ := by
  unfold read at result
  split_ifs at result with blocked
  simp only [Option.some.injEq, Prod.mk.injEq, List.take_eq_nil_iff] at result
  have empty := result.1.resolve_left some.ne'
  exact ⟨empty, Finset.not_nonempty_iff_eq_empty.mp fun writers => blocked ⟨empty, writers⟩⟩

theorem write_moves {pipe after : Pipe Party Cell limits} {total count : Nat}
    {rest remaining : List Cell} (result : pipe.write total rest count = some (remaining, after)) :
    after.cells ++ remaining = pipe.cells ++ rest ∧ remaining.length + count = rest.length ∧
      0 < count ∧ (total ≤ limits.pipeBuf → count = total) ∧
      after.readers = pipe.readers ∧ after.writers = pipe.writers := by
  unfold write at result
  split_ifs at result with room taken
  cases result
  refine ⟨?_, ?_, taken.1, taken.2.2, rfl, rfl⟩
  · rw [List.append_assoc, List.take_append_drop]
  · rw [List.length_drop]
    omega

/-- An empty pipe takes the whole of a short `write` and some of a long one. -/
theorem write_possible {pipe : Pipe Party Cell limits} (empty : pipe.cells = []) {total : Nat}
    {rest : List Cell} (more : rest ≠ []) (whole : total ≤ limits.pipeBuf → rest.length = total) :
    ∃ count, (pipe.write total rest count).isSome = true := by
  have positive := limits.positive
  have fits := limits.fits
  have length := List.length_pos_iff.mpr more
  by_cases short : total ≤ limits.pipeBuf
  · have same := whole short
    have room : pipe.cells.length + (rest.take total).length ≤ limits.capacity := by
      rw [empty, List.length_take, List.length_nil]
      omega
    refine ⟨total, ?_⟩
    rw [write, dif_pos room, if_pos ⟨by omega, by omega, fun _ => rfl⟩]
    rfl
  · have room : pipe.cells.length + (rest.take 1).length ≤ limits.capacity := by
      rw [empty, List.length_take, List.length_nil]
      omega
    refine ⟨1, ?_⟩
    rw [write, dif_pos room, if_pos ⟨by omega, by omega, fun atMost => absurd atMost short⟩]
    rfl

end Pipe

end LinuxSystemPrograms.Pipes
