import Mathlib.Data.Fin.Basic
import Mathlib.Data.Finset.Card
import Mathlib.Data.Finset.Range
import Mathlib.Data.Fintype.Basic
import Mathlib.Data.Int.ModEq
import Mathlib.Data.List.Nodup
import Mathlib.Data.Nat.ModEq
import Mathlib.Logic.Function.Basic

/-!
# Ring buffers with two cursors and a counter

`push` and `pop` are the unguarded operations: the caller checks the counter. `Formed` is
what they keep when it does, and `contents` is the queue that the ring then stands for.
Cells outside the queue keep what was last written to them.
-/

namespace LinuxSystemPrograms.RingBuffer

set_option autoImplicit false

structure Ring (Cell : Type*) (capacity : Nat) where
  cells : Fin capacity → Cell
  front : Fin capacity
  rear : Fin capacity
  count : Int

variable {Cell : Type*} {capacity : Nat}

/-- The index `steps` places further, around the end. -/
def ahead (index : Fin capacity) (steps : Nat) : Fin capacity :=
  ⟨(index + steps) % capacity, Nat.mod_lt _ (Nat.zero_lt_of_lt index.isLt)⟩

theorem ahead_zero (index : Fin capacity) : ahead index 0 = index :=
  Fin.ext (Nat.mod_eq_of_lt index.isLt)

theorem ahead_ahead (index : Fin capacity) (first second : Nat) :
    ahead (ahead index first) second = ahead index (first + second) := by
  apply Fin.ext
  simp only [ahead, Nat.mod_add_mod, Nat.add_assoc]

/-- Fewer steps than there are cells never lead to the same cell twice. -/
theorem ahead_injective {index : Fin capacity} {first second : Nat} (firstBound : first < capacity)
    (secondBound : second < capacity) (same : ahead index first = ahead index second) :
    first = second := by
  have sameValue : (index + first) % capacity = (index + second) % capacity :=
    congrArg Fin.val same
  have congruent : first ≡ second [MOD capacity] := Nat.ModEq.add_left_cancel' _ sameValue
  exact Nat.ModEq.eq_of_lt_of_lt congruent firstBound secondBound

namespace Ring

def push (ring : Ring Cell capacity) (cell : Cell) : Ring Cell capacity where
  cells := Function.update ring.cells ring.rear cell
  front := ring.front
  rear := ahead ring.rear 1
  count := ring.count + 1

def pop (ring : Ring Cell capacity) : Cell × Ring Cell capacity :=
  (ring.cells ring.front, { ring with front := ahead ring.front 1, count := ring.count - 1 })

/-- The queue, oldest cell first. -/
def contents (ring : Ring Cell capacity) : List Cell :=
  (List.range ring.count.toNat).map fun offset => ring.cells (ahead ring.front offset)

structure Formed (ring : Ring Cell capacity) : Prop where
  nonneg : 0 ≤ ring.count
  bounded : ring.count ≤ capacity
  rear : ring.rear = ahead ring.front ring.count.toNat

theorem Formed.rear_value {ring : Ring Cell capacity} (formed : ring.Formed) :
    ((ring.rear : Nat) : Int) = (ring.front + ring.count) % capacity := by
  have nonneg := formed.nonneg
  rw [formed.rear, ahead, Int.natCast_mod, Int.natCast_add, Int.toNat_of_nonneg nonneg]

theorem formed_of_empty (ring : Ring Cell capacity) (empty : ring.count = 0)
    (sameCursor : ring.rear = ring.front) : ring.Formed where
  nonneg := Int.le_of_eq empty.symm
  bounded := by
    rw [empty]
    exact Int.natCast_nonneg capacity
  rear := by rw [empty, sameCursor, Int.toNat_zero, ahead_zero]

theorem contents_of_empty (ring : Ring Cell capacity) (empty : ring.count = 0) :
    ring.contents = [] := by
  rw [contents, empty]
  rfl

theorem push_formed {ring : Ring Cell capacity} (formed : ring.Formed) (cell : Cell)
    (room : ring.count < capacity) : (ring.push cell).Formed where
  nonneg := by
    have nonneg := formed.nonneg
    simp only [push]
    omega
  bounded := by
    simp only [push]
    omega
  rear := by
    have nonneg := formed.nonneg
    have successor : (ring.count + 1).toNat = ring.count.toNat + 1 := by omega
    simp only [push, successor, formed.rear, ahead_ahead]

/-- The cell that is overwritten is none of the queue's. -/
theorem push_contents {ring : Ring Cell capacity} (formed : ring.Formed) (cell : Cell)
    (room : ring.count < capacity) : (ring.push cell).contents = ring.contents ++ [cell] := by
  have nonneg := formed.nonneg
  have successor : (ring.count + 1).toNat = ring.count.toNat + 1 := by omega
  have kept : ∀ offset ∈ List.range ring.count.toNat,
      (ring.push cell).cells (ahead ring.front offset) = ring.cells (ahead ring.front offset) := by
    intro offset member
    have bound := List.mem_range.mp member
    apply Function.update_of_ne
    rw [formed.rear]
    intro same
    have sameOffset := ahead_injective (by omega) (by omega) same
    omega
  have written : (ring.push cell).cells (ahead ring.front ring.count.toNat) = cell := by
    rw [← formed.rear]
    exact Function.update_self _ _ _
  calc
    (ring.push cell).contents
        = (List.range (ring.count.toNat + 1)).map fun offset =>
            (ring.push cell).cells (ahead ring.front offset) := by
          rw [contents, ← successor]
          rfl
    _ = ring.contents ++ [cell] := by
      rw [List.range_succ, List.map_append, List.map_congr_left kept, List.map_singleton, written]
      rfl

theorem pop_formed {ring : Ring Cell capacity} (formed : ring.Formed) (some : 0 < ring.count) :
    ring.pop.2.Formed where
  nonneg := by
    simp only [pop]
    omega
  bounded := by
    have bounded := formed.bounded
    simp only [pop]
    omega
  rear := by
    have predecessor : 1 + (ring.count - 1).toNat = ring.count.toNat := by omega
    simp only [pop, ahead_ahead, predecessor, formed.rear]

theorem pop_contents {ring : Ring Cell capacity} (some : 0 < ring.count) :
    ring.contents = ring.pop.1 :: ring.pop.2.contents := by
  have successor : ring.count.toNat = (ring.count - 1).toNat + 1 := by omega
  have shifted : ∀ offset, ring.cells (ahead ring.front (offset + 1)) =
      ring.cells (ahead (ahead ring.front 1) offset) := by
    intro offset
    rw [ahead_ahead, Nat.add_comm]
  rw [contents, successor, List.range_succ_eq_map, List.map_cons, List.map_map, ahead_zero]
  exact congrArg (List.cons _) (List.map_congr_left fun offset _ => shifted offset)

def Occupied (ring : Ring Cell capacity) (index : Fin capacity) : Prop :=
  ∃ offset, offset < ring.count.toNat ∧ index = ahead ring.front offset

theorem mem_contents {ring : Ring Cell capacity} {cell : Cell} :
    cell ∈ ring.contents ↔ ∃ index, ring.Occupied index ∧ ring.cells index = cell := by
  simp only [contents, List.mem_map, List.mem_range, Occupied]
  constructor
  · rintro ⟨offset, bound, same⟩
    exact ⟨_, ⟨offset, bound, rfl⟩, same⟩
  · rintro ⟨_, ⟨offset, bound, rfl⟩, same⟩
    exact ⟨offset, bound, same⟩

/-- A queue without repetitions holds nothing in two cells. -/
theorem occupied_unique {ring : Ring Cell capacity} (distinct : ring.contents.Nodup)
    {first second : Fin capacity} (firstOccupied : ring.Occupied first)
    (secondOccupied : ring.Occupied second) (same : ring.cells first = ring.cells second) :
    first = second := by
  obtain ⟨firstOffset, firstBound, rfl⟩ := firstOccupied
  obtain ⟨secondOffset, secondBound, rfl⟩ := secondOccupied
  have offsets : firstOffset = secondOffset :=
    List.inj_on_of_nodup_map distinct (List.mem_range.mpr firstBound)
      (List.mem_range.mpr secondBound) same
  rw [offsets]

instance (ring : Ring Cell capacity) : DecidablePred ring.Occupied :=
  fun _ => inferInstanceAs (Decidable (∃ offset, offset < ring.count.toNat ∧ _))

theorem occupied_card {ring : Ring Cell capacity} (formed : ring.Formed) :
    ((Finset.univ.filter ring.Occupied).card : Int) = ring.count := by
  have nonneg := formed.nonneg
  have bounded := formed.bounded
  have image : Finset.univ.filter ring.Occupied =
      (Finset.range ring.count.toNat).image (ahead ring.front) := by
    ext index
    simp only [Finset.mem_filter, Finset.mem_univ, true_and, Finset.mem_image, Finset.mem_range,
      Occupied]
    exact exists_congr fun offset => and_congr_right fun _ => eq_comm
  rw [image, Finset.card_image_of_injOn, Finset.card_range, Int.toNat_of_nonneg nonneg]
  intro first firstMember second secondMember same
  rw [Finset.coe_range, Set.mem_Iio] at firstMember secondMember
  exact ahead_injective (by omega) (by omega) same

end Ring

end LinuxSystemPrograms.RingBuffer
