/-
# Zigzag numbers and signed overflow

`EncodeZigzag32` and `EncodeZigzag64` cast the absolute value of a negative number to
unsigned before they double it, but they take the negative before the cast, and they double
a number that is not negative without one.  The negation overflows at the least value, and
the product from a quarter of the range on (`evalEncodeZigzag32_eq`, `evalEncodeZigzag64_eq`).
Everywhere else the result is the zigzag number and the decoder gives the value back:
`zigzagRight_iff`.

Where signed arithmetic wraps around the result is the zigzag number of every value
(`toNat_encodeZigzag32`, `toNat_encodeZigzag64`).  This is what the round trips of the typed
calls rest on.
-/

import Wuchat.Buffer.Scalars

namespace Wuchat
namespace Buffer

open Foundation

/-- `EncodeZigzag32(val)`, none where a signed operation overflows. -/
def evalEncodeZigzag32 (val : Int32) : Option UInt32 :=
  if val < 0 then (negChecked val.toBitVec).map fun v => UInt32.ofBitVec v * 2 - 1
  else (mulChecked val.toBitVec 2#32).map UInt32.ofBitVec

/-- `EncodeZigzag64(val)`, none where a signed operation overflows. -/
def evalEncodeZigzag64 (val : Int64) : Option UInt64 :=
  if val < 0 then (negChecked val.toBitVec).map fun v => UInt64.ofBitVec v * 2 - 1
  else (mulChecked val.toBitVec 2#64).map UInt64.ofBitVec

/-- **What the calls promise of a 32-bit value**: the encoder is evaluated without signed
overflow, its result is the zigzag number, and the decoder gives the value back. -/
def ZigzagRight32 (val : Int32) : Prop :=
  ∃ v, evalEncodeZigzag32 val = some v ∧ (v.toNat : Int) = zigzagNumber val.toInt ∧ decodeZigzag32 v = val

/-- The same of a 64-bit value. -/
def ZigzagRight64 (val : Int64) : Prop :=
  ∃ v, evalEncodeZigzag64 val = some v ∧ (v.toNat : Int) = zigzagNumber val.toInt ∧ decodeZigzag64 v = val

/-! ### The encoders -/

/-- With wrapping the result is the zigzag number, whatever the value. -/
theorem toNat_encodeZigzag32 (val : Int32) : ((encodeZigzag32 val).toNat : Int) = zigzagNumber val.toInt := by
  have hfold := toNat_zigzag (by decide) val.toBitVec
  rw [← toBitVec_encodeZigzag32] at hfold
  exact hfold

/-- The zigzag number of a 64-bit value. -/
theorem toNat_encodeZigzag64 (val : Int64) : ((encodeZigzag64 val).toNat : Int) = zigzagNumber val.toInt := by
  have hfold := toNat_zigzag (by decide) val.toBitVec
  rw [← toBitVec_encodeZigzag64] at hfold
  exact hfold

/-- **Where `EncodeZigzag32` is evaluated.** -/
theorem evalEncodeZigzag32_eq (val : Int32) :
    evalEncodeZigzag32 val = if -2 ^ 31 < val.toInt ∧ val.toInt < 2 ^ 30 then some (encodeZigzag32 val) else none := by
  have hchecked : evalEncodeZigzag32 val = (zigzagChecked val.toBitVec).map UInt32.ofBitVec := by
    have hneg : val.toBitVec.slt 0#32 = true ↔ val < 0 := Iff.rfl
    simp only [evalEncodeZigzag32, zigzagChecked, hneg]
    split
    · rw [Option.map_map]
      rfl
    · rfl
  have hrange : zigzagChecked val.toBitVec =
      if -2 ^ 31 < val.toInt ∧ val.toInt < 2 ^ 30 then some (zigzag val.toBitVec) else none :=
    zigzagChecked_eq (by decide) val.toBitVec
  rw [hchecked, hrange, ← toBitVec_encodeZigzag32]
  split
  · rfl
  · rfl

/-- **Where `EncodeZigzag64` is evaluated.** -/
theorem evalEncodeZigzag64_eq (val : Int64) :
    evalEncodeZigzag64 val = if -2 ^ 63 < val.toInt ∧ val.toInt < 2 ^ 62 then some (encodeZigzag64 val) else none := by
  have hchecked : evalEncodeZigzag64 val = (zigzagChecked val.toBitVec).map UInt64.ofBitVec := by
    have hneg : val.toBitVec.slt 0#64 = true ↔ val < 0 := Iff.rfl
    simp only [evalEncodeZigzag64, zigzagChecked, hneg]
    split
    · rw [Option.map_map]
      rfl
    · rfl
  have hrange : zigzagChecked val.toBitVec =
      if -2 ^ 63 < val.toInt ∧ val.toInt < 2 ^ 62 then some (zigzag val.toBitVec) else none :=
    zigzagChecked_eq (by decide) val.toBitVec
  rw [hchecked, hrange, ← toBitVec_encodeZigzag64]
  split
  · rfl
  · rfl

/-- For which values of 32 bits the zigzag number is right. -/
theorem zigzagRight32_iff (val : Int32) :
    ZigzagRight32 val ↔ -2 ^ 31 < val.toInt ∧ val.toInt < 2 ^ 30 := by
  rw [ZigzagRight32, evalEncodeZigzag32_eq]
  constructor
  · rintro ⟨v, hv, -, -⟩
    split at hv
    · assumption
    · cases hv
  · intro h
    exact ⟨_, if_pos h, toNat_encodeZigzag32 val, decodeZigzag32_encodeZigzag32 val⟩

/-- For which values of 64 bits it is. -/
theorem zigzagRight64_iff (val : Int64) :
    ZigzagRight64 val ↔ -2 ^ 63 < val.toInt ∧ val.toInt < 2 ^ 62 := by
  rw [ZigzagRight64, evalEncodeZigzag64_eq]
  constructor
  · rintro ⟨v, hv, -, -⟩
    split at hv
    · assumption
    · cases hv
  · intro h
    exact ⟨_, if_pos h, toNat_encodeZigzag64 val, decodeZigzag64_encodeZigzag64 val⟩

/-- **The values whose zigzag number is taken without signed overflow**: all but the least
one and those from a quarter of the range on. -/
theorem zigzagRight_iff (val : Int32) (val' : Int64) :
    (ZigzagRight32 val ↔ -2 ^ 31 < val.toInt ∧ val.toInt < 2 ^ 30) ∧
      (ZigzagRight64 val' ↔ -2 ^ 63 < val'.toInt ∧ val'.toInt < 2 ^ 62) :=
  ⟨zigzagRight32_iff val, zigzagRight64_iff val'⟩

/-- The negation of the least value overflows, and so does the double of a large one. -/
theorem zigzag_overflows : ¬ZigzagRight32 (-2147483648) ∧ ¬ZigzagRight32 1073741824 ∧
    ¬ZigzagRight64 (-9223372036854775808) ∧ ¬ZigzagRight64 4611686018427387904 := by
  simp only [zigzagRight32_iff, zigzagRight64_iff]
  decide

end Buffer
end Wuchat
