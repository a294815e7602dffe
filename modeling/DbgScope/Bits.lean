import Mathlib.Data.Nat.Bitwise
import Mathlib.Tactic.NormNum

/-!
# Bit fields

The bits `lo, …, lo + width - 1` of a word as a number, and what a mask test says about them. A
test of a word against a mask of consecutive bits is a test of one field (`and_mask_eq_iff`), and
fields are quotients and remainders by powers of two, so that facts about overlapping fields are
linear arithmetic.
-/

namespace Bits

variable {w : ℕ}

def bitField (word : BitVec w) (lo width : ℕ) : ℕ := word.toNat / 2 ^ lo % 2 ^ width

theorem bitField_lt (word : BitVec w) (lo width : ℕ) : bitField word lo width < 2 ^ width :=
  Nat.mod_lt _ (by positivity)

theorem shiftRight_and_eq (word : BitVec w) (lo width : ℕ) :
    (word.toNat >>> lo) &&& (2 ^ width - 1) = bitField word lo width := by
  rw [Nat.and_two_pow_sub_one_eq_mod, Nat.shiftRight_eq_div_pow, bitField]

theorem toNat_shiftRight_and (word : BitVec w) (lo : ℕ) {width : ℕ} (h : width < w) :
    ((word >>> lo) &&& BitVec.ofNat w (2 ^ width - 1)).toNat = bitField word lo width := by
  have hmask : 2 ^ width - 1 < 2 ^ w :=
    lt_of_le_of_lt (Nat.sub_le _ _) (Nat.pow_lt_pow_right (by decide) h)
  rw [BitVec.toNat_and, BitVec.toNat_ushiftRight, BitVec.toNat_ofNat, Nat.mod_eq_of_lt hmask,
    shiftRight_and_eq]

theorem and_mask (n lo width : ℕ) :
    n &&& (2 ^ width - 1) * 2 ^ lo = n / 2 ^ lo % 2 ^ width * 2 ^ lo := by
  apply Nat.eq_of_testBit_eq
  intro i
  by_cases h : lo ≤ i
  · simp [Nat.testBit_and, Nat.testBit_mul_two_pow, Nat.testBit_two_pow_sub_one,
      Nat.testBit_mod_two_pow, Nat.testBit_div_two_pow, h, Bool.and_comm]
  · simp [Nat.testBit_and, Nat.testBit_mul_two_pow, h]

/-- **A mask of consecutive bits tests one field.** -/
theorem and_mask_eq_iff (word : BitVec w) (lo width value : ℕ) (hw : lo + width ≤ w)
    (hv : value < 2 ^ width) :
    word &&& BitVec.ofNat w ((2 ^ width - 1) * 2 ^ lo) = BitVec.ofNat w (value * 2 ^ lo) ↔
      bitField word lo width = value := by
  have hpow : 2 ^ width * 2 ^ lo ≤ 2 ^ w := by
    rw [← pow_add]
    exact Nat.pow_le_pow_right (by decide) (by omega)
  have hlo : 0 < 2 ^ lo := by positivity
  have hmask : (2 ^ width - 1) * 2 ^ lo < 2 ^ w := by
    have := Nat.mul_lt_mul_of_pos_right (show 2 ^ width - 1 < 2 ^ width by omega) hlo
    omega
  have hvalue : value * 2 ^ lo < 2 ^ w := by
    have := Nat.mul_lt_mul_of_pos_right hv hlo
    omega
  rw [← BitVec.toNat_inj, BitVec.toNat_and, BitVec.toNat_ofNat, BitVec.toNat_ofNat,
    Nat.mod_eq_of_lt hmask, Nat.mod_eq_of_lt hvalue, and_mask]
  exact ⟨fun h => Nat.eq_of_mul_eq_mul_right hlo h, fun h => congrArg (· * 2 ^ lo) h⟩

end Bits
