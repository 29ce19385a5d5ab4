import Mathlib.Algebra.BigOperators.Group.Finset.Basic

/-!
# Sums in which one term changes
-/

namespace LinuxSystemPrograms.FiniteSums

set_option autoImplicit false

variable {Index : Type*} [Fintype Index] [DecidableEq Index]

theorem sum_exchange (before after : Index → Nat) (index : Index)
    (others : ∀ other, other ≠ index → after other = before other) :
    ∑ other, after other + before index = ∑ other, before other + after index := by
  rw [← Finset.add_sum_erase _ after (Finset.mem_univ index),
    ← Finset.add_sum_erase _ before (Finset.mem_univ index)]
  have rest : ∑ other ∈ Finset.univ.erase index, after other =
      ∑ other ∈ Finset.univ.erase index, before other :=
    Finset.sum_congr rfl fun other member => others other (Finset.ne_of_mem_erase member)
  omega

theorem sum_change {before after : Index → Nat} (index : Index) {gained : Nat}
    (others : ∀ other, other ≠ index → after other = before other)
    (grown : after index = before index + gained) :
    ∑ other, after other = ∑ other, before other + gained := by
  have exchanged := sum_exchange before after index others
  omega

end LinuxSystemPrograms.FiniteSums
