/-
# The order and the equality of addresses

`operator<` compares the bytes of two addresses as far as the shorter one goes
and then their lengths: it is the lexicographic order of the byte strings
(`operatorLess_eq_bytesLess`), so it is a strict total order on them.
`operator==` asks for the same length and for bytes that differ: an address is
never equal to itself (`operatorEq_self`), and exactly one of `a < b`, `b < a`
and `a == b` holds only of addresses of different lengths
(`exactlyOne_iff_length_ne`).
-/

import Wuchat.Net.Address

namespace Wuchat
namespace Net

open Foundation

/-- `memcmp`: the difference of the first two of `n` bytes that differ. -/
def memcmp : Bytes → Bytes → Nat → Int
  | a :: as, b :: bs, n + 1 => if a = b then memcmp as bs n else (a.toNat : Int) - b.toNat
  | _, _, _ => 0

namespace Address

/-- `operator<`. -/
def operatorLess (a b : Address) : Bool :=
  let minLen := min a.getAddrLen b.getAddrLen
  let res := memcmp a.bytes b.bytes minLen
  if res < 0 then true
  else if 0 < res then false
  else if a.getAddrLen < b.getAddrLen then true
  else false

/-- `operator==`. -/
def operatorEq (a b : Address) : Bool :=
  a.getAddrLen == b.getAddrLen && memcmp a.bytes b.bytes a.getAddrLen != 0

/-- `operator!=`. -/
def operatorNe (a b : Address) : Bool := !operatorEq a b

/-- One of three holds and the other two do not. -/
def ExactlyOne (p q r : Bool) : Prop :=
  (p = true ∧ q = false ∧ r = false) ∨ (p = false ∧ q = true ∧ r = false) ∨ (p = false ∧ q = false ∧ r = true)

/-- What the operators promise of three addresses. -/
structure OrderRight (a b c : Address) : Prop where
  irrefl : operatorLess a a = false
  trans : operatorLess a b = true → operatorLess b c = true → operatorLess a c = true
  exactlyOne : ExactlyOne (operatorLess a b) (operatorLess b a) (operatorEq a b)
  eq_refl : operatorEq a a = true
  eq_symm : operatorEq a b = true → operatorEq b a = true
  eq_trans : operatorEq a b = true → operatorEq b c = true → operatorEq a c = true
  ne : operatorNe a b = !operatorEq a b

end Address

/-- **`memcmp` on what both strings have, then the lengths, is the byte order.** -/
theorem memcmp_bytesLess : ∀ a b : Bytes,
    (if memcmp a b (min a.length b.length) < 0 then true
      else if 0 < memcmp a b (min a.length b.length) then false
      else if a.length < b.length then true else false) = bytesLess a b
  | [], [] => by simp [memcmp, bytesLess]
  | [], b :: bs => by simp [memcmp, bytesLess]
  | a :: as, [] => by simp [memcmp, bytesLess]
  | a :: as, b :: bs => by
    have hmin : min (a :: as).length (b :: bs).length = min as.length bs.length + 1 := by
      rw [List.length_cons, List.length_cons, Nat.add_min_add_right]
    rw [hmin, memcmp, bytesLess, ← memcmp_bytesLess as bs]
    by_cases heq : a = b
    · rw [if_pos heq, heq, if_neg (UInt8.lt_irrefl b), if_neg (UInt8.lt_irrefl b)]
      simp
    · rw [if_neg heq]
      have hne : a.toNat ≠ b.toNat := fun h => heq (UInt8.toNat_inj.1 h)
      by_cases hlt : a < b
      · have : a.toNat < b.toNat := UInt8.lt_iff_toNat_lt.1 hlt
        rw [if_pos hlt, if_pos (by omega)]
      · have : b.toNat ≤ a.toNat := UInt8.le_iff_toNat_le.1 (UInt8.not_lt.1 hlt)
        have hgt : b < a := UInt8.lt_iff_toNat_lt.2 (by omega)
        rw [if_neg hlt, if_pos hgt, if_neg (by omega), if_pos (by omega)]

/-- `memcmp` answers 0 exactly on strings with the same bytes. -/
theorem memcmp_eq_zero_iff : ∀ a b : Bytes, a.length = b.length → (memcmp a b a.length = 0 ↔ a = b)
  | [], [], _ => by simp [memcmp]
  | [], b :: bs, h => by cases h
  | a :: as, [], h => by cases h
  | a :: as, b :: bs, h => by
    have hlen : as.length = bs.length := Nat.succ.inj h
    rw [List.length_cons, memcmp]
    by_cases heq : a = b
    · rw [if_pos heq, memcmp_eq_zero_iff as bs hlen, heq, List.cons.injEq]
      simp
    · have hne : a.toNat ≠ b.toNat := fun h => heq (UInt8.toNat_inj.1 h)
      rw [if_neg heq, List.cons.injEq]
      simp only [heq, false_and, iff_false]
      omega

namespace Address

/-- **`operator<` is the lexicographic order of the byte strings.** -/
theorem operatorLess_eq_bytesLess (a b : Address) : operatorLess a b = bytesLess a.bytes b.bytes := by
  rw [← memcmp_bytesLess, length_bytes, length_bytes]
  rfl

/-- **`operator==` asks for the same length and different bytes.** -/
theorem operatorEq_iff (a b : Address) :
    operatorEq a b = true ↔ a.getAddrLen = b.getAddrLen ∧ a.bytes ≠ b.bytes := by
  rw [operatorEq, Bool.and_eq_true, beq_iff_eq, bne_iff_ne]
  refine and_congr_right fun hlen => not_congr ?_
  rw [← length_bytes a]
  exact memcmp_eq_zero_iff _ _ (by rw [length_bytes, length_bytes, hlen])

/-- No address equals itself. -/
theorem operatorEq_self (a : Address) : operatorEq a a = false := by
  rw [Bool.eq_false_iff]
  exact fun h => ((operatorEq_iff a a).1 h).2 rfl

/-- **Exactly one holds of addresses of different lengths, and of no others.** -/
theorem exactlyOne_iff_length_ne (a b : Address) :
    ExactlyOne (operatorLess a b) (operatorLess b a) (operatorEq a b) ↔ a.getAddrLen ≠ b.getAddrLen := by
  rw [operatorLess_eq_bytesLess, operatorLess_eq_bytesLess, ← length_bytes, ← length_bytes]
  by_cases heq : a.bytes = b.bytes
  · -- neither is less, and they are not equal
    have hself : operatorEq a b = false := by
      rw [Bool.eq_false_iff]
      exact fun h => ((operatorEq_iff a b).1 h).2 heq
    simp [ExactlyOne, hself, heq, bytesLess_irrefl]
  have hasymm : ¬(bytesLess a.bytes b.bytes = true ∧ bytesLess b.bytes a.bytes = true) := fun h => by
    have hself := bytesLess_trans _ _ _ h.1 h.2
    rw [bytesLess_irrefl] at hself
    cases hself
  have htotal : ¬(bytesLess a.bytes b.bytes = false ∧ bytesLess b.bytes a.bytes = false) := fun h =>
    heq (bytesLess_total _ _ h.1 h.2)
  have hiff : operatorEq a b = true ↔ a.bytes.length = b.bytes.length := by
    rw [operatorEq_iff, length_bytes, length_bytes]
    simp [heq]
  rw [ExactlyOne, ne_eq, ← hiff]
  grind

/-- **No three addresses meet what the operators promise**, since none equals
itself.  The order is a strict total order on the byte strings all the same, and
exactly one of the three holds just when the lengths differ. -/
theorem order_never_right (a b c : Address) :
    ¬OrderRight a b c ∧ operatorLess a a = false ∧
      (operatorLess a b = true → operatorLess b c = true → operatorLess a c = true) ∧
      (operatorLess a b = false → operatorLess b a = false → a.bytes = b.bytes) ∧
      (ExactlyOne (operatorLess a b) (operatorLess b a) (operatorEq a b) ↔ a.getAddrLen ≠ b.getAddrLen) ∧
      (operatorEq a b = true ↔ a.getAddrLen = b.getAddrLen ∧ a.bytes ≠ b.bytes) ∧
      operatorNe a b = !operatorEq a b := by
  refine ⟨fun h => ?_, ?_, ?_, ?_, exactlyOne_iff_length_ne a b, operatorEq_iff a b, rfl⟩
  · have hself := h.eq_refl
    rw [operatorEq_self] at hself
    cases hself
  · rw [operatorLess_eq_bytesLess, bytesLess_irrefl]
  · rw [operatorLess_eq_bytesLess, operatorLess_eq_bytesLess, operatorLess_eq_bytesLess]
    exact bytesLess_trans _ _ _
  · rw [operatorLess_eq_bytesLess, operatorLess_eq_bytesLess]
    exact bytesLess_total _ _

/-- `127.0.0.1:80` is not equal to itself. -/
theorem loopback_ne_itself :
    ¬∀ a b c : Address, OrderRight a b c := fun h =>
  absurd (h (.ipv4 (.ofValue 0x7f000001 80)) (.ipv4 (.ofValue 0x7f000001 80))
    (.ipv4 (.ofValue 0x7f000001 80))).eq_refl (by decide)

end Address
end Net
end Wuchat
