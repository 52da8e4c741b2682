/-
# Integers of variable length

Seven bits to a byte, the lowest first, and the top bit set on every byte but the last
(`varintBytes`).  The encoder fills an array of fixed length, and has no result when that is
too short; `varintBytes_isSome` says how long it has to be.  The decoder adds seven bits at
the next place to what it has (`varint_add`).

`zigzag` folds the signed values of a width onto the unsigned ones, with the sign in
the lowest bit: small values of either sign stay small.  `toNat_zigzag` and
`unzigzag_zigzag` hold for every width, with the wrapping of two's complement.
`zigzagChecked` makes the same operations and has no value where a signed one overflows,
which is at the least value and from a quarter of the range on (`zigzagChecked_eq`).
-/

import Mathlib.Algebra.Group.Int.Defs
import Mathlib.Algebra.Group.Nat.Defs
import Wuchat.Foundation.CString

namespace Wuchat
namespace Foundation

/-- The bytes of a value, `none` when there is no room for them. -/
def varintBytes : Nat → Nat → Option Bytes
  | 0, _ => none
  | room + 1, v =>
    if 0x80 ≤ v then (varintBytes room (v >>> 7)).map (UInt8.ofNat (v &&& 0x7f ||| 0x80) :: ·)
    else some [UInt8.ofNat v]

/-- Seven bits to a byte. -/
theorem varintBytes_isSome : ∀ {room v : Nat}, 0 < room → v < 2 ^ (7 * room) → ∃ bs, varintBytes room v = some bs
  | 0, _, h, _ => absurd h (Nat.lt_irrefl 0)
  | room + 1, v, _, h => by
    rw [varintBytes]
    split
    · rename_i hge
      have hroom : 0 < room := by
        rcases Nat.eq_zero_or_pos room with rfl | hpos
        · omega
        · exact hpos
      have hlt : v >>> 7 < 2 ^ (7 * room) := by
        rw [Nat.shiftRight_eq_div_pow, Nat.div_lt_iff_lt_mul (Nat.two_pow_pos 7), ← Nat.pow_add]
        exact h
      obtain ⟨bs, hbs⟩ := varintBytes_isSome hroom hlt
      exact ⟨_, by rw [hbs, Option.map_some]⟩
    · exact ⟨_, rfl⟩

/-- A group less is seven bits less. -/
theorem log2_shiftRight_seven {v : Nat} (hv : 0x80 ≤ v) : Nat.log2 (v >>> 7) + 7 = Nat.log2 v := by
  have hne : v ≠ 0 := by omega
  have hle : 7 ≤ Nat.log2 v := (Nat.le_log2 hne).2 hv
  obtain ⟨k, hk⟩ : ∃ k, Nat.log2 v = k + 7 := ⟨Nat.log2 v - 7, by omega⟩
  obtain ⟨hlow, hhigh⟩ := (Nat.log2_eq_iff hne).1 hk
  have hpow : 2 ^ (k + 7) = 2 ^ k * 128 := Nat.pow_add 2 k 7
  have hpow' : 2 ^ (k + 7 + 1) = 2 ^ (k + 1) * 128 := by
    rw [Nat.add_right_comm, Nat.pow_add]
  have hdiv : v >>> 7 = v / 128 := Nat.shiftRight_eq_div_pow v 7
  have hlog : Nat.log2 (v >>> 7) = k := by
    rw [hdiv, Nat.log2_eq_iff (by omega)]
    omega
  rw [hlog, hk]

/-- The number of bytes is the number of bits over seven. -/
theorem length_varintBytes : ∀ {room v : Nat} {bs : Bytes}, varintBytes room v = some bs →
    bs.length = Nat.log2 v / 7 + 1
  | 0, _, _, h => by cases h
  | room + 1, v, bs, h => by
    rw [varintBytes] at h
    split at h
    · rename_i hge
      obtain ⟨more, hmore, rfl⟩ := Option.map_eq_some_iff.1 h
      have hlog := log2_shiftRight_seven hge
      rw [List.length_cons, length_varintBytes hmore]
      omega
    · obtain rfl := Option.some.inj h
      have hlt : Nat.log2 v < 7 := by
        rcases Nat.eq_zero_or_pos v with rfl | hpos
        · decide
        · exact (Nat.log2_lt (by omega)).2 (by omega)
      rw [Nat.div_eq_of_lt hlt]
      rfl

/-- The low bits of a byte that is not the last. -/
theorem and_or_top (v : Nat) : v &&& 0x7f ||| 0x80 = 128 + v % 128 := by
  have hlow : v &&& 0x7f = v % 2 ^ 7 := Nat.and_two_pow_sub_one_eq_mod v 7
  have hlt : v % 2 ^ 7 < 2 ^ 7 := Nat.mod_lt _ (Nat.two_pow_pos 7)
  rw [hlow, Nat.or_comm]
  exact (Nat.two_pow_add_eq_or_of_lt hlt 1).symm

/-- A byte that is not the last has its top bit set. -/
theorem toNat_more (v : Nat) : (UInt8.ofNat (v &&& 0x7f ||| 0x80)).toNat = 128 + v % 128 := by
  rw [and_or_top, UInt8.toNat_ofNat']
  omega

/-- The low bits of a group that goes on. -/
theorem and_low_more (v : Nat) : (128 + v % 128) &&& 0x7f = v % 128 := by
  have hlow : (128 + v % 128) &&& 0x7f = (128 + v % 128) % 2 ^ 7 := Nat.and_two_pow_sub_one_eq_mod _ 7
  rw [hlow]
  omega

/-- **Bits above the ones there are.**  Below the width nothing is cut off. -/
theorem varint_add {width i result x : Nat} (hresult : result < 2 ^ i) (hfit : x * 2 ^ i < 2 ^ width) :
    result ||| x <<< i % 2 ^ width = x * 2 ^ i + result := by
  rw [Nat.shiftLeft_eq, Nat.mod_eq_of_lt hfit, Nat.or_comm, Nat.mul_comm]
  exact (Nat.two_pow_add_eq_or_of_lt hresult x).symm

/-! ### Signed values -/

/-- A signed value folded onto the unsigned ones. -/
def zigzag {w : Nat} (x : BitVec w) : BitVec w := if x.slt 0#w then -x * 2#w - 1#w else x * 2#w

/-- The signed value of a folded one. -/
def unzigzag {w : Nat} (v : BitVec w) : BitVec w := (v >>> 1) ^^^ -(v &&& 1#w)

section

variable {w n : Nat} {v : BitVec w}

/-- One, as a number. -/
theorem toNat_one (hw : 0 < w) : (1#w).toNat = 1 := by
  rw [BitVec.toNat_ofNat, Nat.mod_eq_of_lt (Nat.one_lt_two_pow (by omega))]

/-- Two, as a number. -/
theorem toNat_two (hw : 1 < w) : (2#w).toNat = 2 := by
  rw [BitVec.toNat_ofNat, Nat.mod_eq_of_lt]
  calc 2 = 2 ^ 1 := rfl
    _ < 2 ^ w := Nat.pow_lt_pow_right (by omega) hw

/-- A folded value that is not negative. -/
theorem unzigzag_double (hw : 0 < w) (hv : v.toNat = 2 * n) : (unzigzag v).toNat = n := by
  have hlow : v &&& 1#w = 0#w := by
    apply BitVec.eq_of_toNat_eq
    rw [BitVec.toNat_and, toNat_one hw, hv, Nat.and_one_is_mod, Nat.mul_mod_right, BitVec.toNat_zero]
  rw [unzigzag, hlow, BitVec.neg_zero, BitVec.xor_zero, BitVec.toNat_ushiftRight, hv,
    Nat.shiftRight_eq_div_pow]
  omega

/-- A folded value that is negative. -/
theorem unzigzag_odd (hw : 0 < w) (hv : v.toNat = 2 * n + 1) : (unzigzag v).toNat = 2 ^ w - 1 - n := by
  have hlow : v &&& 1#w = 1#w := by
    apply BitVec.eq_of_toNat_eq
    rw [BitVec.toNat_and, toNat_one hw, hv, Nat.and_one_is_mod]
    omega
  rw [unzigzag, hlow, BitVec.neg_one_eq_allOnes, BitVec.xor_allOnes, BitVec.toNat_not,
    BitVec.toNat_ushiftRight, hv, Nat.shiftRight_eq_div_pow]
  omega

end

/-- The fold of a negative value is twice its absolute value, less one. -/
theorem toNat_zigzag_neg {w : Nat} (hw : 1 < w) {x : BitVec w} (hneg : 2 ^ (w - 1) ≤ x.toNat)
    (hslt : x.slt 0#w = true) : (zigzag x).toNat = 2 * (2 ^ w - x.toNat - 1) + 1 := by
  have hx := x.isLt
  have hhalf : 2 ^ w = 2 * 2 ^ (w - 1) := by
    obtain ⟨k, rfl⟩ : ∃ k, w = k + 1 := ⟨w - 1, by omega⟩
    exact Nat.pow_succ'
  have habs : (-x).toNat = 2 ^ w - x.toNat := by
    rw [BitVec.toNat_neg, Nat.mod_eq_of_lt (by omega)]
  rw [zigzag, if_pos hslt, BitVec.toNat_sub, BitVec.toNat_mul, habs, toNat_two hw, toNat_one (by omega)]
  rcases Nat.lt_or_ge ((2 ^ w - x.toNat) * 2) (2 ^ w) with hlt | hge
  · have hsum : 2 ^ w - 1 + (2 ^ w - x.toNat) * 2 = 2 * (2 ^ w - x.toNat - 1) + 1 + 2 ^ w := by omega
    rw [Nat.mod_eq_of_lt hlt, hsum, Nat.add_mod_right, Nat.mod_eq_of_lt (by omega)]
  · -- the least value: twice its absolute value wraps to nothing
    have hwrap : (2 ^ w - x.toNat) * 2 = 2 ^ w := by omega
    rw [hwrap, Nat.mod_self, Nat.add_zero, Nat.mod_eq_of_lt (by omega)]
    omega

/-- The fold of a value that is not negative is twice the value. -/
theorem toNat_zigzag_nonneg {w : Nat} (hw : 1 < w) {x : BitVec w} (hlt : x.toNat < 2 ^ (w - 1))
    (hslt : ¬x.slt 0#w = true) : (zigzag x).toNat = 2 * x.toNat := by
  have hhalf : 2 ^ w = 2 * 2 ^ (w - 1) := by
    obtain ⟨k, rfl⟩ : ∃ k, w = k + 1 := ⟨w - 1, by omega⟩
    exact Nat.pow_succ'
  rw [zigzag, if_neg hslt, BitVec.toNat_mul, toNat_two hw, Nat.mod_eq_of_lt (by omega), Nat.mul_comm]

/-- The number that a signed one is folded to. -/
def zigzagNumber (n : Int) : Int := if n < 0 then -2 * n - 1 else 2 * n

/-- **Folding loses nothing**, not even at the least value, whose negative wraps to itself. -/
theorem unzigzag_zigzag {w : Nat} (hw : 1 < w) (x : BitVec w) : unzigzag (zigzag x) = x := by
  have hx := x.isLt
  have hmsb : x.slt 0#w = true ↔ 2 ^ (w - 1) ≤ x.toNat := by
    rw [BitVec.slt_zero_iff_msb_cond, BitVec.msb_eq_decide, decide_eq_true_iff]
  have hhalf : 2 ^ w = 2 * 2 ^ (w - 1) := by
    obtain ⟨k, rfl⟩ : ∃ k, w = k + 1 := ⟨w - 1, by omega⟩
    exact Nat.pow_succ'
  apply BitVec.eq_of_toNat_eq
  by_cases hneg : x.slt 0#w = true
  · rw [unzigzag_odd (by omega) (toNat_zigzag_neg hw (hmsb.1 hneg) hneg)]
    omega
  · have hlt : x.toNat < 2 ^ (w - 1) := Nat.lt_of_not_le fun h => hneg (hmsb.2 h)
    exact unzigzag_double (by omega) (toNat_zigzag_nonneg hw hlt hneg)

/-- **A value is folded to its zigzag number.** -/
theorem toNat_zigzag {w : Nat} (hw : 1 < w) (x : BitVec w) : ((zigzag x).toNat : Int) = zigzagNumber x.toInt := by
  have hx := x.isLt
  have hsign := BitVec.toInt_neg_iff (x := x)
  have hint := BitVec.toInt_eq_toNat_cond x
  have hhalf : 2 ^ w = 2 * 2 ^ (w - 1) := by
    obtain ⟨k, rfl⟩ : ∃ k, w = k + 1 := ⟨w - 1, by omega⟩
    exact Nat.pow_succ'
  rw [zigzagNumber]
  by_cases hneg : x.toInt < 0
  · have hslt : x.slt 0#w = true := by
      rw [BitVec.slt_iff_toInt_lt, BitVec.toInt_zero]
      exact hneg
    rw [if_pos hneg, toNat_zigzag_neg hw (by omega) hslt, hint, if_neg (by omega)]
    omega
  · have hslt : ¬x.slt 0#w = true := by
      rw [BitVec.slt_iff_toInt_lt, BitVec.toInt_zero]
      exact hneg
    rw [if_neg hneg, toNat_zigzag_nonneg hw (by omega) hslt, hint, if_pos (by omega)]
    omega

/-! ### Signed overflow -/

/-- `-x`, where it does not overflow. -/
def negChecked {w : Nat} (x : BitVec w) : Option (BitVec w) := if x.negOverflow then none else some (-x)

/-- `x * y`, where it does not overflow. -/
def mulChecked {w : Nat} (x y : BitVec w) : Option (BitVec w) := if x.smulOverflow y then none else some (x * y)

/-- The fold with a signed negation and a signed product; what is done with the negative
is unsigned. -/
def zigzagChecked {w : Nat} (x : BitVec w) : Option (BitVec w) :=
  if x.slt 0#w then (negChecked x).map fun v => v * 2#w - 1#w else mulChecked x 2#w

/-- Only the least value has no negative. -/
theorem negOverflow_iff {w : Nat} {x : BitVec w} : x.negOverflow = true ↔ ¬-2 ^ (w - 1) < x.toInt := by
  have hle := BitVec.le_toInt x
  rw [BitVec.negOverflow, beq_iff_eq]
  omega

/-- Doubling takes a value from a quarter of the range on out of it. -/
theorem smulOverflow_two_iff {w : Nat} (hw : 2 < w) {x : BitVec w} (hx : 0 ≤ x.toInt) :
    x.smulOverflow 2#w = true ↔ ¬x.toInt < 2 ^ (w - 2) := by
  obtain ⟨k, rfl⟩ : ∃ k, w = k + 3 := ⟨w - 3, by omega⟩
  have htwo : (2#(k + 3)).toInt = 2 := by
    have hlt : 2 * 2 < 2 ^ (k + 3) := by
      have hpos := Nat.two_pow_pos k
      rw [Nat.pow_add]
      omega
    rw [BitVec.toInt_eq_toNat_cond, toNat_two (by omega), if_pos hlt]
    rfl
  have hpow : (2 : Int) ^ (k + 3 - 1) = 2 ^ (k + 3 - 2) * 2 := Int.pow_succ 2 (k + 1)
  have hpos : (0 : Int) < 2 ^ (k + 3 - 2) := Int.pow_pos (by decide)
  rw [BitVec.smulOverflow, htwo, hpow, Bool.or_eq_true, decide_eq_true_iff, decide_eq_true_iff]
  omega

/-- **Where the fold is evaluated without signed overflow**, and then it is the fold. -/
theorem zigzagChecked_eq {w : Nat} (hw : 2 < w) (x : BitVec w) :
    zigzagChecked x = if -2 ^ (w - 1) < x.toInt ∧ x.toInt < 2 ^ (w - 2) then some (zigzag x) else none := by
  have hpos : (0 : Int) < 2 ^ (w - 1) := Int.pow_pos (by decide)
  have hpos' : (0 : Int) < 2 ^ (w - 2) := Int.pow_pos (by decide)
  have hslt : x.slt 0#w = true ↔ x.toInt < 0 := by rw [BitVec.slt_iff_toInt_lt, BitVec.toInt_zero]
  rw [zigzagChecked, zigzag]
  by_cases hneg : x.toInt < 0
  · rw [if_pos (hslt.2 hneg), if_pos (hslt.2 hneg), negChecked]
    by_cases hmin : -2 ^ (w - 1) < x.toInt
    · rw [if_neg fun h => negOverflow_iff.1 h hmin, if_pos ⟨hmin, by omega⟩]
      rfl
    · rw [if_pos (negOverflow_iff.2 hmin), if_neg fun h => hmin h.1]
      rfl
  · rw [if_neg fun h => hneg (hslt.1 h), if_neg fun h => hneg (hslt.1 h), mulChecked]
    have hover := smulOverflow_two_iff hw (Int.not_lt.1 hneg)
    by_cases hlt : x.toInt < 2 ^ (w - 2)
    · rw [if_neg fun h => hover.1 h hlt, if_pos ⟨by omega, hlt⟩]
    · rw [if_pos (hover.2 hlt), if_neg fun h => hlt h.2]

end Foundation
end Wuchat
