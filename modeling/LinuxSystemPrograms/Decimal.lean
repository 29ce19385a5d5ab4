import Mathlib.Data.Nat.Digits.Lemmas

/-!
# Decimal rendering of integers

The bytes that `%llu` and `%d` print: no leading zeros, a minus sign before a negative
number.
-/

namespace LinuxSystemPrograms.Decimal

set_option autoImplicit false

def digitChar (digit : Nat) : UInt8 := UInt8.ofNat (48 + digit)

def ofNat (number : Nat) : List UInt8 :=
  if number = 0 then [digitChar 0] else (Nat.digits 10 number).reverse.map digitChar

def ofInt : Int → List UInt8
  | .ofNat number => ofNat number
  | .negSucc number => 45 :: ofNat (number + 1)

theorem of_nat_length_le {number width : Nat} (positive : 0 < width)
    (bound : number < 10 ^ width) : (ofNat number).length ≤ width := by
  unfold ofNat
  split_ifs with zero
  · exact positive
  · rw [List.length_map, List.length_reverse]
    exact (Nat.digits_length_le_iff (by decide) number).mpr bound

theorem of_int_length_le {number : Int} {width : Nat} (positive : 0 < width)
    (bound : number.natAbs < 10 ^ width) : (ofInt number).length ≤ width + 1 := by
  cases number with
  | ofNat magnitude => exact Nat.le_succ_of_le (of_nat_length_le positive bound)
  | negSucc magnitude => exact Nat.succ_le_succ (of_nat_length_le positive bound)

theorem digit_char_to_nat {digit : Nat} (bound : digit < 10) :
    (digitChar digit).toNat = 48 + digit := by
  rw [digitChar, UInt8.toNat_ofNat']
  omega

theorem of_nat_digits {number : Nat} {char : UInt8} (member : char ∈ ofNat number) :
    48 ≤ char.toNat ∧ char.toNat ≤ 57 := by
  unfold ofNat at member
  split_ifs at member with zero
  · rw [List.mem_singleton.mp member]
    decide
  · obtain ⟨digit, digitMember, rfl⟩ := List.mem_map.mp member
    have bound : digit < 10 :=
      Nat.digits_lt_base (by decide) (List.mem_reverse.mp digitMember)
    rw [digit_char_to_nat bound]
    omega

/-- A rendered number has no control characters. -/
theorem of_int_printable {number : Int} {char : UInt8} (member : char ∈ ofInt number) :
    32 < char.toNat := by
  cases number with
  | ofNat magnitude =>
      have digits := of_nat_digits member
      omega
  | negSucc magnitude =>
      rcases List.mem_cons.mp member with rfl | digit
      · decide
      · have digits := of_nat_digits digit
        omega

/-- The number that a run of digits stands for. -/
def value (digits : List UInt8) : Nat :=
  Nat.ofDigits 10 (digits.reverse.map fun char => char.toNat - 48)

theorem value_of_nat (number : Nat) : value (ofNat number) = number := by
  unfold value ofNat
  split_ifs with zero
  · rw [zero]
    rfl
  · have digits : (Nat.digits 10 number).map ((fun char => char.toNat - 48) ∘ digitChar) =
        Nat.digits 10 number := by
      conv_rhs => rw [← List.map_id (Nat.digits 10 number)]
      apply List.map_congr_left
      intro digit member
      rw [Function.comp_apply, digit_char_to_nat (Nat.digits_lt_base (by decide) member)]
      exact Nat.add_sub_cancel_left 48 digit
    rw [← List.map_reverse, List.reverse_reverse, List.map_map, digits, Nat.ofDigits_digits]

theorem of_nat_injective : Function.Injective ofNat :=
  Function.LeftInverse.injective value_of_nat

theorem minus_not_mem_of_nat (number : Nat) : 45 ∉ ofNat number := by
  intro member
  have digits := of_nat_digits member
  have minus : (45 : UInt8).toNat = 45 := rfl
  omega

theorem of_int_injective : Function.Injective ofInt := by
  intro left right same
  cases left with
  | ofNat magnitude =>
      cases right with
      | ofNat other => exact congrArg Int.ofNat (of_nat_injective same)
      | negSucc other =>
          have absent := minus_not_mem_of_nat magnitude
          rw [show ofNat magnitude = 45 :: ofNat (other + 1) from same] at absent
          simp at absent
  | negSucc magnitude =>
      cases right with
      | ofNat other =>
          have absent := minus_not_mem_of_nat other
          rw [show ofNat other = 45 :: ofNat (magnitude + 1) from same.symm] at absent
          simp at absent
      | negSucc other =>
          have numbers := of_nat_injective (List.cons.inj same).2
          rw [Nat.add_right_cancel numbers]

example : ofInt (-2147483648) = [45, 50, 49, 52, 55, 52, 56, 51, 54, 52, 56] := by
  decide +kernel

end LinuxSystemPrograms.Decimal
