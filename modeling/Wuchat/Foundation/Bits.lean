/-
# Bits of values in memory

Bit `i` of a little-endian value is bit `i % 8` of its byte `i / 8`
(`testBit_leValue`), and of a value read with its highest byte first, `beValue`,
bit `k` from the top is bit `7 - k % 8` of byte `k / 8` (`getMsbD_beValue`).
`prefixMask w p` has the top `p` of `w` bits set: values agree under it exactly
when their first `p` bits agree (`and_prefixMask_eq_iff`).
-/

import Wuchat.Foundation.Endian

namespace Wuchat
namespace Foundation

/-- The value of bytes with the highest byte first, the network byte order. -/
def beValue (bs : Bytes) : Nat := leValue bs.reverse

/-- The `w`-bit value whose top `p` bits are ones. -/
def prefixMask (w p : Nat) : BitVec w := BitVec.allOnes w <<< (w - p)

/-- A bit of a little-endian number is in the byte it is in. -/
theorem testBit_leValue (bs : Bytes) (i : Nat) :
    (leValue bs).testBit i = (bs[i / 8]?.getD 0).toNat.testBit (i % 8) := by
  induction bs generalizing i with
  | nil => simp [leValue]
  | cons b bs ih =>
    have hb : b.toNat < 2 ^ 8 := b.toNat_lt
    have hv : leValue (b :: bs) = 2 ^ 8 * leValue bs + b.toNat := by
      rw [leValue]
      omega
    rw [hv, Nat.testBit_two_pow_mul_add _ hb]
    by_cases hi : i < 8
    · rw [if_pos hi, Nat.div_eq_of_lt hi, Nat.mod_eq_of_lt hi]
      rfl
    · have hdiv : i / 8 = (i - 8) / 8 + 1 := by omega
      have hmod : i % 8 = (i - 8) % 8 := by omega
      rw [if_neg hi, ih, hdiv, hmod, List.getElem?_cons_succ]

/-- The bytes of a number, one by one. -/
theorem getElem?_leBytes (n v k : Nat) :
    (leBytes n v)[k]? = if k < n then some (UInt8.ofNat (v / 256 ^ k)) else none := by
  induction n generalizing v k with
  | zero => simp [leBytes]
  | succ n ih =>
    cases k with
    | zero => simp [leBytes]
    | succ k =>
      rw [leBytes, List.getElem?_cons_succ, ih, Nat.div_div_eq_div_mul, ← Nat.pow_succ']
      simp

/-- Bit `j` of byte `k` of a value in memory. -/
theorem testBit_getD_leBytes {n v k j : Nat} (hk : k < n) (hj : j < 8) :
    ((leBytes n v)[k]?.getD 0).toNat.testBit j = v.testBit (8 * k + j) := by
  have h256 : (256 : Nat) ^ k = 2 ^ (8 * k) := by
    rw [Nat.pow_mul]
  have hmod : (UInt8.ofNat (v / 256 ^ k)).toNat = v / 2 ^ (8 * k) % 2 ^ 8 := by
    rw [h256]
    rfl
  rw [getElem?_leBytes, if_pos hk, Option.getD_some, hmod, Nat.testBit_mod_two_pow, Nat.testBit_div_two_pow]
  simp [hj, Nat.add_comm]

/-- **Bit `k` from the top of bytes in network byte order.** -/
theorem getMsbD_beValue {bs : Bytes} {w k : Nat} (hw : w = 8 * bs.length) (hk : k < w) :
    (BitVec.ofNat w (beValue bs)).getMsbD k = (bs[k / 8]?.getD 0).toNat.testBit (7 - k % 8) := by
  subst hw
  have hlt : beValue bs < 2 ^ (8 * bs.length) := by
    have h := leValue_lt bs.reverse
    rw [List.length_reverse] at h
    rwa [Nat.pow_mul]
  have hdiv : (8 * bs.length - 1 - k) / 8 = bs.length - 1 - k / 8 := by omega
  have hmod : (8 * bs.length - 1 - k) % 8 = 7 - k % 8 := by omega
  have hrev : bs.length - 1 - (bs.length - 1 - k / 8) = k / 8 := by omega
  rw [BitVec.getMsbD, decide_eq_true hk, Bool.true_and, BitVec.getLsbD_ofNat, decide_eq_true (by omega),
    Bool.true_and, beValue, testBit_leValue, hdiv, hmod, List.getElem?_reverse (by omega), hrev]

/-- The bits of a prefix mask, from the top. -/
theorem getMsbD_prefixMask {w p k : Nat} (hp : p ≤ w) (hk : k < w) :
    (prefixMask w p).getMsbD k = decide (k < p) := by
  rw [BitVec.getMsbD, prefixMask, BitVec.getLsbD_shiftLeft, BitVec.getLsbD_allOnes]
  grind

/-- **Values agree under a prefix mask exactly when their first bits agree.** -/
theorem and_prefixMask_eq_iff {w p : Nat} (hp : p ≤ w) (x y : BitVec w) :
    x &&& prefixMask w p = y &&& prefixMask w p ↔ ∀ k < p, x.getMsbD k = y.getMsbD k := by
  constructor
  · intro h k hk
    have hbit := congrArg (fun v => BitVec.getMsbD v k) h
    simpa [BitVec.getMsbD_and, getMsbD_prefixMask hp (Nat.lt_of_lt_of_le hk hp), hk] using hbit
  · intro h
    refine BitVec.eq_of_getMsbD_eq fun k hk => ?_
    rw [BitVec.getMsbD_and, BitVec.getMsbD_and, getMsbD_prefixMask hp hk]
    by_cases hkp : k < p
    · rw [h k hkp]
    · simp [hkp]

/-- **`byteSwap` turns the bytes round and leaves the bits of a byte.** -/
theorem testBit_byteSwap {n i : Nat} (v : Nat) (hi : i < 8 * n) :
    (byteSwap n v).testBit i = v.testBit (8 * (n - 1 - i / 8) + i % 8) := by
  have hk : i / 8 < (leBytes n v).length := by
    rw [length_leBytes]
    omega
  rw [byteSwap, testBit_leValue, List.getElem?_reverse hk, length_leBytes]
  exact testBit_getD_leBytes (by omega) (by omega)

example : prefixMask 8 3 = 0b11100000 := by decide

end Foundation
end Wuchat
