import Mathlib.Algebra.Order.Floor.Semiring
import Mathlib.Algebra.Order.Field.Basic
import Mathlib.Order.Monotone.Basic
import Mathlib.Tactic.Linarith
import Mathlib.Tactic.Ring

/-!
# Linear interpolation between the values of a sequence

Between two neighbours of a growing sequence the interpolated value grows too, and it never
leaves the interval between them, so that it grows along the whole sequence.
-/

namespace LinuxSystemPrograms.Interpolation

set_option autoImplicit false

section Interpolate

variable {Scalar : Type*} [Field Scalar] [LinearOrder Scalar] [IsStrictOrderedRing Scalar]
  [FloorSemiring Scalar]

def interpolate (values : Nat → Scalar) (position : Scalar) : Scalar :=
  values ⌊position⌋₊ +
    (values (⌊position⌋₊ + 1) - values ⌊position⌋₊) * (position - ⌊position⌋₊)

variable {values : Nat → Scalar} {position : Scalar}

@[simp] theorem interpolate_index (values : Nat → Scalar) (index : Nat) :
    interpolate values index = values index := by
  rw [interpolate, Nat.floor_natCast, sub_self, mul_zero, add_zero]

theorem fraction_bounds (nonneg : 0 ≤ position) :
    0 ≤ position - ⌊position⌋₊ ∧ position - ⌊position⌋₊ ≤ 1 := by
  have below := Nat.floor_le nonneg
  have above := Nat.lt_floor_add_one position
  constructor
  · linarith
  · linarith

omit [FloorSemiring Scalar] in
theorem gap_nonneg (grows : Monotone values) (index : Nat) :
    0 ≤ values (index + 1) - values index :=
  sub_nonneg.mpr (grows (Nat.le_succ index))

theorem le_interpolate (grows : Monotone values) (nonneg : 0 ≤ position) :
    values ⌊position⌋₊ ≤ interpolate values position := by
  have product := mul_nonneg (gap_nonneg grows ⌊position⌋₊) (fraction_bounds nonneg).1
  rw [interpolate]
  linarith

theorem interpolate_le (grows : Monotone values) (nonneg : 0 ≤ position) :
    interpolate values position ≤ values (⌊position⌋₊ + 1) := by
  have product := mul_le_of_le_one_right (gap_nonneg grows ⌊position⌋₊)
    (fraction_bounds nonneg).2
  rw [interpolate]
  linarith

/-- Two positions between the same neighbours, or with a neighbour between them. -/
theorem interpolate_mono (grows : Monotone values) {other : Scalar} (nonneg : 0 ≤ position)
    (ordered : position ≤ other) : interpolate values position ≤ interpolate values other := by
  have floors : ⌊position⌋₊ ≤ ⌊other⌋₊ := Nat.floor_mono ordered
  rcases floors.eq_or_lt with same | apart
  · have farther : position - ⌊position⌋₊ ≤ other - ⌊position⌋₊ := by linarith
    have product := mul_le_mul_of_nonneg_left farther (gap_nonneg grows ⌊position⌋₊)
    rw [interpolate, interpolate, ← same]
    linarith
  · calc
      interpolate values position ≤ values (⌊position⌋₊ + 1) := interpolate_le grows nonneg
      _ ≤ values ⌊other⌋₊ := grows apart
      _ ≤ interpolate values other := le_interpolate grows (nonneg.trans ordered)

end Interpolate

/-! ## The sequence of a list -/

variable {Cell : Type*}

/-- The cells of a list, the last one over and over behind its end. -/
def extended (list : List Cell) (nonempty : list ≠ []) (index : Nat) : Cell :=
  list.get ⟨min index (list.length - 1), by
    have := List.length_pos_iff.mpr nonempty
    omega⟩

theorem extended_inside {list : List Cell} (nonempty : list ≠ []) {index : Nat}
    (inside : index < list.length) : list[index]? = some (extended list nonempty index) := by
  have fixed : min index (list.length - 1) = index := by omega
  rw [List.getElem?_eq_getElem inside, extended, List.get_eq_getElem]
  simp only [fixed]

theorem extended_behind {list : List Cell} (nonempty : list ≠ []) {index : Nat}
    (behind : list.length ≤ index + 1) :
    extended list nonempty (index + 1) = extended list nonempty index := by
  have same : min (index + 1) (list.length - 1) = min index (list.length - 1) := by omega
  simp only [extended, same]

theorem extended_mem (list : List Cell) (nonempty : list ≠ []) (index : Nat) :
    extended list nonempty index ∈ list :=
  List.get_mem _ _

theorem extended_mono [Preorder Cell] {list : List Cell} (nonempty : list ≠ [])
    (sorted : list.Pairwise (· ≤ ·)) : Monotone (extended list nonempty) := by
  intro first second ordered
  have positions : min first (list.length - 1) ≤ min second (list.length - 1) := by omega
  rcases positions.eq_or_lt with same | before
  · simp only [extended, same, le_refl]
  · simp only [extended, List.get_eq_getElem]
    exact List.pairwise_iff_getElem.mp sorted _ _ _ _ before

/-- The first cell of a sorted list is the least, and the last one the greatest. -/
theorem extended_bounds [Preorder Cell] {list : List Cell} (nonempty : list ≠ [])
    (sorted : list.Pairwise (· ≤ ·)) {cell : Cell} (member : cell ∈ list) :
    extended list nonempty 0 ≤ cell ∧ cell ≤ extended list nonempty (list.length - 1) := by
  obtain ⟨index, inside, rfl⟩ := List.mem_iff_getElem.mp member
  have here := extended_inside nonempty inside
  rw [List.getElem?_eq_getElem inside, Option.some.injEq] at here
  rw [here]
  have grows := extended_mono nonempty sorted
  exact ⟨grows (Nat.zero_le index), grows (by omega)⟩

end LinuxSystemPrograms.Interpolation
