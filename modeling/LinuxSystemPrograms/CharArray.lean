import Mathlib.Data.Vector.Basic

/-!
# Fixed-size arrays read and written by block copies

An array keeps all its cells, also those beyond the cursor of the program that uses it,
so stale contents are part of the state. Each access names the cells it touches and
asks for the proof that they lie inside the array: an out-of-range access cannot be
written down.
-/

namespace LinuxSystemPrograms.CharArray

set_option autoImplicit false

variable {Cell : Type*} {capacity : Nat}

def slice (array : List.Vector Cell capacity) (offset count : Nat)
    (_inside : offset + count ≤ capacity) : List Cell :=
  (array.toList.drop offset).take count

def memcpy (array : List.Vector Cell capacity) (offset : Nat) (source : List Cell)
    (inside : offset + source.length ≤ capacity) : List.Vector Cell capacity :=
  ⟨array.toList.take offset ++ source ++ array.toList.drop (offset + source.length), by
    simp only [List.length_append, List.length_take, List.length_drop, List.Vector.toList_length]
    omega⟩

@[simp] theorem slice_length (array : List.Vector Cell capacity) (offset count : Nat)
    (inside : offset + count ≤ capacity) :
    (slice array offset count inside).length = count := by
  simp only [slice, List.length_take, List.length_drop, List.Vector.toList_length]
  omega

@[simp] theorem slice_zero (array : List.Vector Cell capacity) (offset : Nat)
    (inside : offset + 0 ≤ capacity) : slice array offset 0 inside = [] := by
  simp [slice]

/-- Reading back exactly the block that was copied. -/
theorem slice_memcpy_same (array : List.Vector Cell capacity) {offset count : Nat}
    {source : List Cell} (inside : offset + source.length ≤ capacity)
    (within : offset + count ≤ capacity) (exactly : count = source.length) :
    slice (memcpy array offset source inside) offset count within = source := by
  subst exactly
  have before : (array.toList.take offset).length = offset := by
    simp only [List.length_take, List.Vector.toList_length]
    omega
  simp only [slice, memcpy, List.Vector.toList_mk, List.append_assoc]
  rw [List.drop_left' before, List.take_left']
  rfl

/-- Copying behind a block appends to it: the cells from `offset` up to `stop` stay. -/
theorem slice_memcpy_append (array : List.Vector Cell capacity) {offset stop count : Nat}
    {source : List Cell} (ordered : offset ≤ stop)
    (inside : stop + source.length ≤ capacity) (within : offset + count ≤ capacity)
    (exactly : count = stop - offset + source.length) :
    slice (memcpy array stop source inside) offset count within =
      slice array offset (stop - offset) (by omega) ++ source := by
  subst exactly
  have before : (array.toList.take stop).length = stop := by
    simp only [List.length_take, List.Vector.toList_length]
    omega
  have kept : ((array.toList.take stop).drop offset).length = stop - offset := by
    rw [List.length_drop, before]
  simp only [slice, memcpy, List.Vector.toList_mk, List.append_assoc]
  rw [List.drop_append_of_le_length (by omega), List.drop_take]
  rw [List.drop_take] at kept
  rw [← List.append_assoc, List.take_left']
  rw [List.length_append, kept]

/-- Dropping the head of a block moves its start. -/
theorem slice_drop (array : List.Vector Cell capacity) {offset count skipped : Nat}
    (inside : offset + count ≤ capacity)
    (within : offset + skipped + (count - skipped) ≤ capacity) :
    slice array (offset + skipped) (count - skipped) within =
      (slice array offset count inside).drop skipped := by
  simp only [slice, List.drop_take, List.drop_drop]

theorem slice_take (array : List.Vector Cell capacity) {offset count kept : Nat}
    (inside : offset + count ≤ capacity) (within : offset + kept ≤ capacity)
    (shorter : kept ≤ count) :
    slice array offset kept within = (slice array offset count inside).take kept := by
  simp only [slice, List.take_take, Nat.min_eq_left shorter]

theorem slice_front (array : List.Vector Cell capacity) {count : Nat}
    (inside : 0 + count ≤ capacity) : slice array 0 count inside = array.toList.take count := by
  rw [slice, List.drop_zero]

/-! ## Accesses that are checked when they run

For a program whose cursors carry no proof: outside the array an access has no value, so
that "no index leaves its array" is the statement that the program has one. -/

def checkedCell (array : List.Vector Cell capacity) (index : Nat) : Option Cell :=
  array.toList[index]?

def checkedSlice (array : List.Vector Cell capacity) (offset count : Nat) : Option (List Cell) :=
  if inside : offset + count ≤ capacity then some (slice array offset count inside) else none

def checkedMemcpy (array : List.Vector Cell capacity) (offset : Nat) (source : List Cell) :
    Option (List.Vector Cell capacity) :=
  if inside : offset + source.length ≤ capacity then some (memcpy array offset source inside)
  else none

theorem checked_slice_inside (array : List.Vector Cell capacity) {offset count : Nat}
    (inside : offset + count ≤ capacity) :
    checkedSlice array offset count = some (slice array offset count inside) :=
  dif_pos inside

theorem checked_memcpy_inside (array : List.Vector Cell capacity) {offset : Nat}
    {source : List Cell} (inside : offset + source.length ≤ capacity) :
    checkedMemcpy array offset source = some (memcpy array offset source inside) :=
  dif_pos inside

/-- A cell inside the array is the head of the block that starts there. -/
theorem checked_cell_inside (array : List.Vector Cell capacity) {index count : Nat}
    (inside : 0 + count ≤ capacity) (within : index < count) :
    ∃ cell, checkedCell array index = some cell ∧
      (slice array 0 count inside).drop index =
        cell :: (slice array 0 count inside).drop (index + 1) := by
  have short : index < (slice array 0 count inside).length := by
    rw [slice_length]
    exact within
  have located : (slice array 0 count inside)[index]? = array.toList[index]? := by
    rw [slice_front, List.getElem?_take_of_lt within]
  refine ⟨(slice array 0 count inside)[index], ?_, List.drop_eq_getElem_cons short⟩
  rw [checkedCell, ← located]
  exact List.getElem?_eq_getElem short

end LinuxSystemPrograms.CharArray
