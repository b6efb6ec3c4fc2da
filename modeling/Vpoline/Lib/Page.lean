import Mathlib.Data.Nat.Bitwise
import Mathlib.Tactic.Ring

/-!
# Masking and Alignment

Rounding a machine word down to a power of two, as C code does it: by
masking with `~(size - 1)`. The results are stated on `toNat`, where the mask
becomes a remainder and the rest of an address computation is linear.

## Main definitions

* `alignDown`: The C idiom `x & ~(size - 1)`.

## Theorems

* `toNat_alignDown`: Masking subtracts the remainder.
* `toNat_sub_mod`: The offset of an address a little below another.
* `div_mul_eq_of_le`: Rounding up to whole pages.
-/

namespace Vpoline

/-- `x & ~(size - 1)`. -/
def alignDown {w : Nat} (x size : BitVec w) : BitVec w :=
  x &&& ~~~(size - 1)

/-- The mask keeps exactly the bits from `k` on. -/
theorem alignDown_eq_shift {w : Nat} (x size : BitVec w) (k : Nat) (hk : k < w)
    (hs : size.toNat = 2 ^ k) : alignDown x size = (x >>> k) <<< k := by
  have hone : (1 : BitVec w).toNat = 1 := by
    rw [BitVec.ofNat_eq_ofNat, BitVec.toNat_ofNat, Nat.mod_eq_of_lt]
    exact Nat.one_lt_two_pow (by omega)
  have hpow : 0 < 2 ^ k := Nat.two_pow_pos k
  have hsub : (size - 1).toNat = 2 ^ k - 1 := by
    rw [BitVec.toNat_sub_of_le (by rw [BitVec.le_def, hone, hs]; omega), hone, hs]
  apply BitVec.eq_of_getLsbD_eq
  intro i hi
  have hbit : (size - 1).getLsbD i = decide (i < k) := by
    rw [BitVec.getLsbD, hsub, Nat.testBit_two_pow_sub_one]
  rw [alignDown, BitVec.getLsbD_and, BitVec.getLsbD_not, hbit, decide_eq_true hi,
    BitVec.getLsbD_shiftLeft, BitVec.getLsbD_ushiftRight, decide_eq_true hi]
  by_cases hik : i < k
  · rw [decide_eq_true hik]
    simp only [Bool.not_true, Bool.and_false, Bool.false_and]
  · rw [decide_eq_false hik, show k + (i - k) = i by omega]
    simp only [Bool.not_false, Bool.and_true, Bool.true_and]

/-- Masking subtracts the remainder. -/
theorem toNat_alignDown {w : Nat} (x size : BitVec w) (k : Nat) (hk : k < w)
    (hs : size.toNat = 2 ^ k) :
    (alignDown x size).toNat = x.toNat - x.toNat % 2 ^ k := by
  have hdiv := Nat.div_add_mod x.toNat (2 ^ k)
  have hmul : x.toNat / 2 ^ k * 2 ^ k = x.toNat - x.toNat % 2 ^ k := by
    rw [Nat.mul_comm]
    omega
  rw [alignDown_eq_shift x size k hk hs, BitVec.toNat_shiftLeft, BitVec.toNat_ushiftRight,
    Nat.shiftLeft_eq, Nat.shiftRight_eq_div_pow, hmul]
  exact Nat.mod_eq_of_lt (by have := x.isLt; omega)

/-- The offset in its page of an address `d` below `x`: a page is borrowed if
    `x` is not that far into its own. The address may wrap below zero, since
    the address space is a whole number of pages. -/
theorem toNat_sub_mod {w : Nat} (x : BitVec w) {d k : Nat} (hk : k ≤ w) (hd : d ≤ 2 ^ k) :
    (x - BitVec.ofNat w d).toNat % 2 ^ k =
      if d ≤ x.toNat % 2 ^ k then x.toNat % 2 ^ k - d else x.toNat % 2 ^ k + 2 ^ k - d := by
  have hspace : 2 ^ w = 2 ^ k * 2 ^ (w - k) := by
    rw [← Nat.pow_add, Nat.add_sub_cancel' hk]
  have hone : 1 ≤ 2 ^ (w - k) := Nat.one_le_two_pow
  have hmod := Nat.mod_lt x.toNat (Nat.two_pow_pos k)
  have hdiv := Nat.div_add_mod x.toNat (2 ^ k)
  have hdvd : 2 ^ k ∣ 2 ^ w := ⟨_, hspace⟩
  have hle : 2 ^ k ≤ 2 ^ w := Nat.pow_le_pow_right (by omega) hk
  -- Wrapping adds a whole number of pages.
  have hsub : (x - BitVec.ofNat w d).toNat % 2 ^ k = (2 ^ w - d + x.toNat) % 2 ^ k := by
    rw [BitVec.toNat_sub, BitVec.toNat_ofNat, Nat.mod_mod_of_dvd _ hdvd]
    rcases Nat.lt_or_eq_of_le (Nat.le_trans hd hle) with hlt | heq
    · rw [Nat.mod_eq_of_lt hlt]
    · rw [heq, Nat.mod_self, Nat.sub_zero, Nat.sub_self, Nat.zero_add, hspace, Nat.mul_add_mod]
  rw [hsub, hspace]
  -- Only the page size, the page number and the offset matter from here on.
  generalize hP : 2 ^ k = P at *
  generalize hc : 2 ^ (w - k) = c at *
  generalize hq : x.toNat / P = q at *
  generalize hr : x.toNat % P = r at *
  have hPc : P ≤ P * c := Nat.le_mul_of_pos_right P hone
  by_cases hle' : d ≤ r
  · have heq : P * c - d + x.toNat = P * (c + q) + (r - d) := by
      rw [Nat.mul_add]
      omega
    rw [if_pos hle', heq, Nat.mul_add_mod, Nat.mod_eq_of_lt (by omega)]
  · have hsplit : P * (c + q) = P * (c + q - 1) + P := by
      rw [← Nat.mul_succ, Nat.succ_eq_add_one, Nat.sub_add_cancel (by omega)]
    have heq : P * c - d + x.toNat = P * (c + q - 1) + (r + P - d) := by
      rw [Nat.mul_add] at hsplit
      omega
    rw [if_neg hle', heq, Nat.mul_add_mod, Nat.mod_eq_of_lt (by omega)]

/-- Rounding up to multiples of `P`: anything above `c` of them and up to one
    more is `c + 1` of them. -/
theorem div_mul_eq_of_le {n P c : Nat} (hlow : P * c < n) (hhigh : n ≤ P * (c + 1)) :
    (n + P - 1) / P * P = P * (c + 1) := by
  have hpos : 0 < P := by
    rcases Nat.eq_zero_or_pos P with h | h
    · rw [h, Nat.zero_mul] at hlow hhigh
      omega
    · exact h
  have hquot : (n + P - 1) / P = c + 1 := by
    rw [Nat.mul_succ] at hhigh
    refine Nat.div_eq_of_lt_le ?_ ?_
    · rw [Nat.mul_comm, Nat.mul_succ]
      omega
    · rw [Nat.mul_comm, Nat.mul_succ, Nat.mul_succ]
      omega
  rw [hquot, Nat.mul_comm]

end Vpoline
