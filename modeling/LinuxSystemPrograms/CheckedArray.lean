import Mathlib.Data.Multiset.Range
import Mathlib.Logic.Function.Basic

/-!
# Arrays indexed by a C `int`

An index expression such as `active - 2` can leave the array on either side. `get` and
`set` are the only accesses, and outside the array they have no value, so that "no index
is out of range" is the statement that a computation over them has one.
-/

namespace LinuxSystemPrograms.CheckedArray

set_option autoImplicit false

/-- An array of `size` cells. What `cell` says of an index outside is never looked at. -/
structure CArray (size : Int) (Cell : Type*) where
  cell : Int → Cell

variable {size : Int} {Cell : Type*}

def Inside (size index : Int) : Prop := 0 ≤ index ∧ index < size

instance (size index : Int) : Decidable (Inside size index) := inferInstanceAs (Decidable (_ ∧ _))

namespace CArray

def put (array : CArray size Cell) (index : Int) (value : Cell) : CArray size Cell :=
  ⟨Function.update array.cell index value⟩

def get (array : CArray size Cell) (index : Int) : Option Cell :=
  if Inside size index then some (array.cell index) else none

def set (array : CArray size Cell) (index : Int) (value : Cell) : Option (CArray size Cell) :=
  if Inside size index then some (array.put index value) else none

@[simp] theorem put_same (array : CArray size Cell) (index : Int) (value : Cell) :
    (array.put index value).cell index = value :=
  Function.update_self _ _ _

theorem put_other (array : CArray size Cell) {index other : Int} (different : other ≠ index)
    (value : Cell) : (array.put index value).cell other = array.cell other :=
  Function.update_of_ne different _ _

theorem put_cell (array : CArray size Cell) (index other : Int) (value : Cell) :
    (array.put index value).cell other = if other = index then value else array.cell other :=
  Function.update_apply _ _ _ _

@[simp] theorem put_self (array : CArray size Cell) (index : Int) :
    array.put index (array.cell index) = array := by
  simp [put]

theorem get_eq_some {array : CArray size Cell} {index : Int} {value : Cell} :
    array.get index = some value ↔ Inside size index ∧ array.cell index = value := by
  by_cases inside : Inside size index
  · simp [get, inside]
  · simp [get, inside]

theorem set_eq_some {array after : CArray size Cell} {index : Int} {value : Cell} :
    array.set index value = some after ↔ Inside size index ∧ array.put index value = after := by
  by_cases inside : Inside size index
  · simp [set, inside]
  · simp [set, inside]

theorem get_inside (array : CArray size Cell) {index : Int} (inside : Inside size index) :
    array.get index = some (array.cell index) :=
  if_pos inside

theorem get_outside (array : CArray size Cell) {index : Int} (outside : ¬ Inside size index) :
    array.get index = none :=
  if_neg outside

theorem set_inside (array : CArray size Cell) {index : Int} (inside : Inside size index)
    (value : Cell) : array.set index value = some (array.put index value) :=
  if_pos inside

theorem set_outside (array : CArray size Cell) {index : Int} (outside : ¬ Inside size index)
    (value : Cell) : array.set index value = none :=
  if_neg outside

end CArray

/-- The values at the indices from `first` up to `stop`, in no order. -/
def cells (value : Int → Cell) (first stop : Int) : Multiset Cell :=
  (Multiset.range (stop - first).toNat).map fun k : Nat => value (first + k)

theorem cells_last (value : Int → Cell) {first stop : Int} (nonempty : first < stop) :
    cells value first stop = value (stop - 1) ::ₘ cells value first (stop - 1) := by
  have grown : (stop - first).toNat = (stop - 1 - first).toNat + 1 := by omega
  have last : first + ((stop - 1 - first).toNat : Int) = stop - 1 := by omega
  rw [cells, grown, Multiset.range_succ, Multiset.map_cons, last, cells]

theorem cells_congr {value other : Int → Cell} {first stop : Int}
    (same : ∀ k, first ≤ k → k < stop → value k = other k) :
    cells value first stop = cells other first stop := by
  apply Multiset.map_congr rfl
  intro k member
  have bound := Multiset.mem_range.mp member
  exact same (first + k) (by omega) (by omega)

/-- One of the cells, and the others. -/
theorem cells_erase (value : Int → Cell) {first stop i : Int} (fromFirst : first ≤ i)
    (inside : i < stop) :
    cells value first stop =
      value i ::ₘ ((Multiset.range (stop - first).toNat).erase (i - first).toNat).map
        fun k : Nat => value (first + k) := by
  have member : (i - first).toNat ∈ Multiset.range (stop - first).toNat :=
    Multiset.mem_range.mpr (by omega)
  have place : first + ((i - first).toNat : Int) = i := by omega
  rw [cells, ← Multiset.cons_erase member, Multiset.map_cons, place, Multiset.erase_cons_head]

/-- When the last cell takes the place of another one, only that one is lost. -/
theorem cells_move_last {value after : Int → Cell} {first stop i : Int} (fromFirst : first ≤ i)
    (inside : i < stop)
    (moved : ∀ k, first ≤ k → k < stop - 1 →
      after k = if k = i then value (stop - 1) else value k) :
    cells value first stop = value i ::ₘ cells after first (stop - 1) := by
  by_cases isLast : i = stop - 1
  · rw [cells_last value (by omega), isLast]
    congr 1
    apply cells_congr
    intro k lower upper
    rw [moved k lower upper, if_neg (by omega)]
  · have others : ((Multiset.range (stop - 1 - first).toNat).erase (i - first).toNat).map
          (fun k : Nat => after (first + k)) =
        ((Multiset.range (stop - 1 - first).toNat).erase (i - first).toNat).map
          fun k : Nat => value (first + k) := by
      apply Multiset.map_congr rfl
      intro k member
      obtain ⟨different, listed⟩ := (Multiset.nodup_range _).mem_erase_iff.mp member
      have bound := Multiset.mem_range.mp listed
      rw [moved (first + k) (by omega) (by omega), if_neg (by omega)]
    rw [cells_last value (by omega), cells_erase value fromFirst (by omega),
      cells_erase after fromFirst (by omega), others, moved i fromFirst (by omega),
      if_pos rfl, Multiset.cons_swap]

end LinuxSystemPrograms.CheckedArray
