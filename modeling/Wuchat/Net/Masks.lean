/-
# Networks, broadcast addresses and subnet masks

`CreateMask` computes the ones below a prefix with a shift of the `int` 1, so it
has no value where the shift reaches the width of `int`, and where the
subtraction overflows its value rests on what the compiler makes of signed
overflow: `wrapv` says that it wraps around.  Everywhere else it is the
complement of the prefix mask (`createMask_eq`).

Prefixes of an IPv4 address are masks of one word, swapped into network byte
order.  `IPv4Address.masksRight_iff_defined`: they are right except at the prefix 0 and,
where signed overflow does not wrap, 1.  Prefixes of an IPv6 address are the
mask of one byte and a loop over the bytes on one side of it.  The network keeps
the bits of that byte that it should clear and clears those it should keep, and
at prefix 128 the byte is the one after the last: `IPv6Address.masksRight_iff_zero`.
-/

import Mathlib
import Wuchat.Net.Address

namespace Wuchat
namespace Net

open Foundation

/-- `1 << n` on `int`. -/
def shiftOne (n : Nat) : Option (BitVec 32) := if n < 32 then some (1#32 <<< n) else none

/-- `v - 1` on `int`. -/
def predInt (wrapv : Bool) (v : BitVec 32) : Option (BitVec 32) :=
  if v = BitVec.intMin 32 ∧ wrapv = false then none else some (v - 1)

/-- `CreateMask<T>(bits)` for a type `T` of `width` bits. -/
def CreateMask (wrapv : Bool) (width bits : Nat) : Option (BitVec width) := do
  let one ← shiftOne ((width + (2 ^ 64 - bits)) % 2 ^ 64)
  let v ← predInt wrapv one
  some (v.signExtend width)

/-- The bits that are set in `(1 << n) - 1`. -/
theorem getLsbD_shiftOne_pred {n : Nat} (hn : n < 32) (i : Nat) :
    (1#32 <<< n - 1#32).getLsbD i = decide (i < n) := by
  have hlt : 2 ^ n < 2 ^ 32 := Nat.pow_lt_pow_right (by decide) hn
  have hpos : 0 < 2 ^ n := Nat.two_pow_pos n
  have hval : (1#32 <<< n - 1#32).toNat = 2 ^ n - 1 := by
    rw [BitVec.toNat_sub, BitVec.toNat_shiftLeft, BitVec.toNat_ofNat, Nat.shiftLeft_eq]
    omega
  rw [← BitVec.testBit_toNat, hval, Nat.testBit_two_pow_sub_one]

/-- The shift gets to the sign bit at 31 alone. -/
theorem shiftOne_eq_intMin_iff {n : Nat} (hn : n < 32) : 1#32 <<< n = BitVec.intMin 32 ↔ n = 31 := by
  constructor
  · intro h
    have hlt : 2 ^ n < 2 ^ 32 := Nat.pow_lt_pow_right (by decide) hn
    have hval : 2 ^ n = 2 ^ 31 := by
      have h := congrArg BitVec.toNat h
      rw [BitVec.toNat_shiftLeft, BitVec.toNat_ofNat, BitVec.toNat_intMin, Nat.shiftLeft_eq] at h
      omega
    exact Nat.pow_right_inj (by decide) |>.1 hval
  · rintro rfl
    rfl

/-- **`CreateMask` is the complement of the prefix mask**, where it is defined. -/
theorem createMask_eq (wrapv : Bool) {w p : Nat} (hw : w ≤ 32) (hp : p ≤ w) :
    CreateMask wrapv w p =
      if w - p = 32 ∨ (w - p = 31 ∧ wrapv = false) then none else some (~~~prefixMask w p) := by
  have hs : (w + (2 ^ 64 - p)) % 2 ^ 64 = w - p := by omega
  rw [CreateMask, hs, shiftOne]
  by_cases h32 : w - p = 32
  · have hcond : w - p = 32 ∨ (w - p = 31 ∧ wrapv = false) := .inl h32
    rw [if_pos hcond, if_neg (by omega)]
    rfl
  have hlt : w - p < 32 := by omega
  have hmask : (1#32 <<< (w - p) - 1#32).signExtend w = ~~~prefixMask w p := by
    refine BitVec.eq_of_getMsbD_eq fun k hk => ?_
    rw [BitVec.getMsbD_not, getMsbD_prefixMask hp hk, BitVec.getMsbD, BitVec.getLsbD_signExtend,
      if_pos (by omega), getLsbD_shiftOne_pred hlt]
    grind
  rw [if_pos hlt, Option.bind_eq_bind, Option.bind_some, predInt]
  simp only [shiftOne_eq_intMin_iff hlt]
  by_cases h31 : w - p = 31 ∧ wrapv = false
  · have hcond : w - p = 32 ∨ (w - p = 31 ∧ wrapv = false) := .inr h31
    rw [if_pos h31, if_pos hcond]
    rfl
  · have hcond : ¬(w - p = 32 ∨ (w - p = 31 ∧ wrapv = false)) := fun h => h.elim h32 h31
    rw [if_neg h31, if_neg hcond, ← hmask]
    rfl

namespace IPv4Address

/-- `networkAddress`: no value where `CreateMask` has none, and a null pointer
past 32 bits. -/
def networkAddress (wrapv : Bool) (a : IPv4Address) (prefix_len : Nat) : Option (Option IPv4Address) :=
  if 32 < prefix_len then some none
  else do
    let mask ← CreateMask wrapv 32 prefix_len
    let s_addr := a.m_addr.s_addr &&& byteSwapOnLittleEndian32 (~~~UInt32.ofBitVec mask)
    some (some { m_addr := { a.m_addr with s_addr } })

/-- `broadcastAddress`. -/
def broadcastAddress (wrapv : Bool) (a : IPv4Address) (prefix_len : Nat) : Option (Option IPv4Address) :=
  if 32 < prefix_len then some none
  else do
    let mask ← CreateMask wrapv 32 prefix_len
    let s_addr := a.m_addr.s_addr ||| byteSwapOnLittleEndian32 (UInt32.ofBitVec mask)
    some (some { m_addr := { a.m_addr with s_addr } })

/-- `subnetMask`, which looks at nothing of its address. -/
def subnetMask (wrapv : Bool) (prefix_len : Nat) : Option (Option IPv4Address) :=
  if 32 < prefix_len then some none
  else do
    let mask ← CreateMask wrapv 32 prefix_len
    let s_addr := ~~~byteSwapOnLittleEndian32 (UInt32.ofBitVec mask)
    some (some { m_addr := { sin_family := AF_INET, sin_port := 0, s_addr, sin_zero := Vector.replicate 8 0 } })

/-- The address as a number: its four bytes in memory, read in network byte order. -/
def value (a : IPv4Address) : BitVec 32 := BitVec.ofNat 32 (beValue (leBytes 4 a.m_addr.s_addr.toNat))

/-- The masks of a prefix are right: null past 32 bits, and up to there
`CreateMask` is defined and the three addresses hold what they should. -/
structure MasksRight (wrapv : Bool) (a : IPv4Address) (p : Nat) : Prop where
  null : 32 < p → a.networkAddress wrapv p = some none ∧ a.broadcastAddress wrapv p = some none ∧
    subnetMask wrapv p = some none
  createMask : p ≤ 32 → CreateMask wrapv 32 p ≠ none
  network : p ≤ 32 → ∃ r, a.networkAddress wrapv p = some (some r) ∧ r.value = a.value &&& prefixMask 32 p
  broadcast : p ≤ 32 → ∃ r, a.broadcastAddress wrapv p = some (some r) ∧ r.value = a.value ||| ~~~prefixMask 32 p
  subnet : p ≤ 32 → ∃ r, subnetMask wrapv p = some (some r) ∧ r.value = prefixMask 32 p

/-- The value of an IPv4 address. -/
theorem value_eq (a : IPv4Address) : a.value = (byteSwapOnLittleEndian32 a.m_addr.s_addr).toBitVec := rfl

end IPv4Address

/-- A swap moves whole bytes. -/
theorem getLsbD_byteSwapOnLittleEndian32 (t : UInt32) {i : Nat} (hi : i < 32) :
    (byteSwapOnLittleEndian32 t).toBitVec.getLsbD i = t.toBitVec.getLsbD (8 * (3 - i / 8) + i % 8) := by
  have hbit : (byteSwapOnLittleEndian32 t).toBitVec = BitVec.ofNat 32 (byteSwap 4 t.toNat) := rfl
  rw [hbit, BitVec.getLsbD_ofNat, decide_eq_true hi, Bool.true_and, testBit_byteSwap t.toNat hi]
  rfl

/-- **Swapping the bytes commutes with a bitwise and.** -/
theorem byteSwap32_and (x y : UInt32) :
    byteSwapOnLittleEndian32 (x &&& y) = byteSwapOnLittleEndian32 x &&& byteSwapOnLittleEndian32 y := by
  rw [← UInt32.toBitVec_inj]
  refine BitVec.eq_of_getLsbD_eq fun i hi => ?_
  rw [UInt32.toBitVec_and, BitVec.getLsbD_and]
  simp only [getLsbD_byteSwapOnLittleEndian32 _ hi, UInt32.toBitVec_and, BitVec.getLsbD_and]

/-- **Swapping the bytes commutes with a bitwise or.** -/
theorem byteSwap32_or (x y : UInt32) :
    byteSwapOnLittleEndian32 (x ||| y) = byteSwapOnLittleEndian32 x ||| byteSwapOnLittleEndian32 y := by
  rw [← UInt32.toBitVec_inj]
  refine BitVec.eq_of_getLsbD_eq fun i hi => ?_
  rw [UInt32.toBitVec_or, BitVec.getLsbD_or]
  simp only [getLsbD_byteSwapOnLittleEndian32 _ hi, UInt32.toBitVec_or, BitVec.getLsbD_or]

/-- **Swapping the bytes commutes with the complement.** -/
theorem byteSwap32_not (x : UInt32) : byteSwapOnLittleEndian32 (~~~x) = ~~~byteSwapOnLittleEndian32 x := by
  rw [← UInt32.toBitVec_inj]
  refine BitVec.eq_of_getLsbD_eq fun i hi => ?_
  have hi' : 8 * (3 - i / 8) + i % 8 < 32 := by omega
  rw [UInt32.toBitVec_not, BitVec.getLsbD_not, getLsbD_byteSwapOnLittleEndian32 _ hi,
    getLsbD_byteSwapOnLittleEndian32 _ hi, UInt32.toBitVec_not, BitVec.getLsbD_not, decide_eq_true hi,
    decide_eq_true hi']

/-- Two swaps are none. -/
theorem byteSwap32_twice (x : UInt32) : byteSwapOnLittleEndian32 (byteSwapOnLittleEndian32 x) = x := by
  rw [← UInt32.toBitVec_inj]
  refine BitVec.eq_of_getLsbD_eq fun i hi => ?_
  have hi' : 8 * (3 - i / 8) + i % 8 < 32 := by omega
  have hback : 8 * (3 - (8 * (3 - i / 8) + i % 8) / 8) + (8 * (3 - i / 8) + i % 8) % 8 = i := by omega
  rw [getLsbD_byteSwapOnLittleEndian32 _ hi, getLsbD_byteSwapOnLittleEndian32 _ hi', hback]

namespace IPv4Address

/-- **The masks of an IPv4 prefix are right exactly when `CreateMask` is
defined**: at every prefix but 0, and but 1 where signed overflow does not wrap
around. -/
theorem masksRight_iff_defined (wrapv : Bool) (a : IPv4Address) (p : Nat) :
    MasksRight wrapv a p ↔ (p ≤ 32 → p ≠ 0 ∧ (p = 1 → wrapv = true)) := by
  constructor
  · intro h hp
    have hdef := h.createMask hp
    rw [createMask_eq wrapv (Nat.le_refl 32) hp] at hdef
    grind
  · intro h
    refine ⟨fun hp => ?_, fun hp => ?_, fun hp => ?_, fun hp => ?_, fun hp => ?_⟩
    · rw [networkAddress, broadcastAddress, subnetMask, if_pos hp, if_pos hp, if_pos hp]
      exact ⟨rfl, rfl, rfl⟩
    all_goals
      have hmask : CreateMask wrapv 32 p = some (~~~prefixMask 32 p) := by
        rw [createMask_eq wrapv (Nat.le_refl 32) hp, if_neg]
        grind
    · rw [hmask]
      exact Option.some_ne_none _
    · rw [networkAddress, if_neg (Nat.not_lt.2 hp), hmask]
      refine ⟨_, rfl, ?_⟩
      rw [value_eq, value_eq, byteSwap32_and, byteSwap32_twice, UInt32.toBitVec_and, UInt32.toBitVec_not,
        UInt32.toBitVec_ofBitVec, BitVec.not_not]
    · rw [broadcastAddress, if_neg (Nat.not_lt.2 hp), hmask]
      refine ⟨_, rfl, ?_⟩
      rw [value_eq, value_eq, byteSwap32_or, byteSwap32_twice, UInt32.toBitVec_or, UInt32.toBitVec_ofBitVec]
    · rw [subnetMask, if_neg (Nat.not_lt.2 hp), hmask]
      refine ⟨_, rfl, ?_⟩
      rw [value_eq, byteSwap32_not, byteSwap32_twice, UInt32.toBitVec_not, UInt32.toBitVec_ofBitVec,
        BitVec.not_not]

/-- At prefix 0 the shift reaches the width of `int`. -/
theorem masks_zero_undefined : ¬MasksRight true (ofValue 0xc0a80178 0) 0 := fun h =>
  h.createMask (by decide) (by decide)

end IPv4Address

/-- `for (i = ...; i < ...; ++i) s6_addr[i] = v`, with `n` rounds from `i`. -/
def setFrom (v : UInt8) : Nat → Nat → Vector UInt8 16 → Vector UInt8 16
  | 0, _, bs => bs
  | n + 1, i, bs => setFrom v n (i + 1) (bs.setIfInBounds i v)

/-- The bytes that are set, and the others. -/
theorem getElem_setFrom (v : UInt8) (n i : Nat) (bs : Vector UInt8 16) {k : Nat} (hk : k < 16) :
    (setFrom v n i bs)[k] = if i ≤ k ∧ k < i + n then v else bs[k] := by
  induction n generalizing i bs with
  | zero =>
    rw [setFrom, if_neg (by omega)]
  | succ n ih =>
    rw [setFrom, ih, Vector.getElem_setIfInBounds]
    grind

namespace IPv6Address

/-- `networkAddress`: no value where it accesses a byte outside the sixteen. -/
def networkAddress (wrapv : Bool) (a : IPv6Address) (prefix_len : Nat) : Option IPv6Address :=
  if h : prefix_len / 8 < 16 then do
    let mask ← CreateMask wrapv 8 (prefix_len % 8)
    let byte := a.m_addr.s6_addr[prefix_len / 8] &&& UInt8.ofBitVec mask
    let s6_addr := setFrom 0x00 (16 - (prefix_len / 8 + 1)) (prefix_len / 8 + 1)
      (a.m_addr.s6_addr.set (prefix_len / 8) byte)
    some { m_addr := { a.m_addr with s6_addr } }
  else none

/-- `broadcastAddress`. -/
def broadcastAddress (wrapv : Bool) (a : IPv6Address) (prefix_len : Nat) : Option IPv6Address :=
  if h : prefix_len / 8 < 16 then do
    let mask ← CreateMask wrapv 8 (prefix_len % 8)
    let byte := a.m_addr.s6_addr[prefix_len / 8] ||| UInt8.ofBitVec mask
    let s6_addr := setFrom 0xff (16 - (prefix_len / 8 + 1)) (prefix_len / 8 + 1)
      (a.m_addr.s6_addr.set (prefix_len / 8) byte)
    some { m_addr := { a.m_addr with s6_addr } }
  else none

/-- `subnetMask`, which looks at nothing of its address. -/
def subnetMask (wrapv : Bool) (prefix_len : Nat) : Option IPv6Address :=
  if h : prefix_len / 8 < 16 then do
    let mask ← CreateMask wrapv 8 (prefix_len % 8)
    let s6_addr := setFrom 0xff (prefix_len / 8) 0
      ((Vector.replicate 16 0).set (prefix_len / 8) (~~~UInt8.ofBitVec mask))
    some { m_addr :=
      { sin6_family := AF_INET6, sin6_port := 0, sin6_flowinfo := 0, s6_addr, sin6_scope_id := 0 } }
  else none

/-- The address as a number: its sixteen bytes in network byte order. -/
def value (a : IPv6Address) : BitVec 128 := BitVec.ofNat 128 (beValue a.m_addr.s6_addr.toList)

/-- The masks of a prefix are right: no byte outside the address is accessed, and
the three addresses hold what they should. -/
structure MasksRight (wrapv : Bool) (a : IPv6Address) (p : Nat) : Prop where
  network : ∃ r, a.networkAddress wrapv p = some r ∧ r.value = a.value &&& prefixMask 128 p ∧
    r.getPort = a.getPort ∧ r.m_addr.sin6_family = a.m_addr.sin6_family
  broadcast : ∃ r, a.broadcastAddress wrapv p = some r ∧ r.value = a.value ||| ~~~prefixMask 128 p ∧
    r.getPort = a.getPort ∧ r.m_addr.sin6_family = a.m_addr.sin6_family
  subnet : ∃ r, subnetMask wrapv p = some r ∧ r.value = prefixMask 128 p

/-- Two addresses have the same network at a prefix. -/
def SameNetwork (wrapv : Bool) (a b : IPv6Address) (p : Nat) : Prop :=
  (a.networkAddress wrapv p).map value = (b.networkAddress wrapv p).map value

/-- A bit of an address is in the byte it is in. -/
theorem getMsbD_value (a : IPv6Address) {k : Nat} (hk : k < 128) :
    a.value.getMsbD k = a.m_addr.s6_addr[k / 8].toNat.testBit (7 - k % 8) := by
  have hlen : k / 8 < a.m_addr.s6_addr.toList.length := by
    rw [Vector.length_toList]
    omega
  rw [value, getMsbD_beValue (by rw [Vector.length_toList]) hk, List.getElem?_eq_getElem hlen,
    Option.getD_some, Vector.getElem_toList]

/-- `CreateMask` of a byte. -/
theorem createMask_byte (wrapv : Bool) (p : Nat) :
    CreateMask wrapv 8 (p % 8) = some (~~~prefixMask 8 (p % 8)) := by
  rw [createMask_eq wrapv (by decide) (by omega), if_neg (by omega)]

/-- The bits of a mask's byte, from the top. -/
theorem testBit_createMask (p : Nat) {j : Nat} (hj : j < 8) :
    (UInt8.ofBitVec (~~~prefixMask 8 (p % 8))).toNat.testBit (7 - j) = decide (p % 8 ≤ j) := by
  have h := getMsbD_prefixMask (w := 8) (p := p % 8) (by omega) hj
  have hmsb := BitVec.getMsbD_not (x := prefixMask 8 (p % 8)) (i := j)
  rw [h, BitVec.getMsbD, decide_eq_true hj] at hmsb
  rw [UInt8.toNat_ofBitVec, BitVec.testBit_toNat]
  grind

/-- Every bit of 0xff is set. -/
theorem testBit_ones {j : Nat} (hj : j < 8) : (0xff : UInt8).toNat.testBit j = true := by
  have hval : (0xff : UInt8).toNat = 2 ^ 8 - 1 := rfl
  rw [hval, Nat.testBit_two_pow_sub_one, decide_eq_true hj]

/-- **What `networkAddress` keeps**: the bits before the byte of the prefix, and
of that byte the bits from the prefix on. -/
theorem networkAddress_bits (wrapv : Bool) (a : IPv6Address) {p : Nat} (hp : p < 128) :
    ∃ r, a.networkAddress wrapv p = some r ∧ r.getPort = a.getPort ∧
      r.m_addr.sin6_family = a.m_addr.sin6_family ∧ ∀ k, k < 128 → r.value.getMsbD k =
        (a.value.getMsbD k && decide (k / 8 < p / 8 ∨ (k / 8 = p / 8 ∧ p ≤ k))) := by
  have hi : p / 8 < 16 := by omega
  rw [networkAddress, dif_pos hi, createMask_byte]
  refine ⟨_, rfl, rfl, rfl, fun k hk => ?_⟩
  have hk' : k / 8 < 16 := by omega
  rw [getMsbD_value _ hk, getMsbD_value _ hk, getElem_setFrom _ _ _ _ hk', Vector.getElem_set hi hk']
  by_cases hgt : p / 8 < k / 8
  · rw [if_pos (by omega), decide_eq_false (by omega)]
    simp
  rw [if_neg (by omega)]
  by_cases heq : p / 8 = k / 8
  · have hle : p % 8 ≤ k % 8 ↔ k / 8 < p / 8 ∨ (k / 8 = p / 8 ∧ p ≤ k) := by omega
    rw [if_pos heq, UInt8.toNat_and, Nat.testBit_and, testBit_createMask p (by omega)]
    simp only [heq, hle]
  · rw [if_neg heq, decide_eq_true (by omega), Bool.and_true]

/-- **`broadcastAddress` sets the bits from the prefix on.** -/
theorem broadcastAddress_bits (wrapv : Bool) (a : IPv6Address) {p : Nat} (hp : p < 128) :
    ∃ r, a.broadcastAddress wrapv p = some r ∧ r.getPort = a.getPort ∧
      r.m_addr.sin6_family = a.m_addr.sin6_family ∧ ∀ k, k < 128 → r.value.getMsbD k =
        (a.value.getMsbD k || decide (p ≤ k)) := by
  have hi : p / 8 < 16 := by omega
  rw [broadcastAddress, dif_pos hi, createMask_byte]
  refine ⟨_, rfl, rfl, rfl, fun k hk => ?_⟩
  have hk' : k / 8 < 16 := by omega
  rw [getMsbD_value _ hk, getMsbD_value _ hk, getElem_setFrom _ _ _ _ hk', Vector.getElem_set hi hk']
  by_cases hgt : p / 8 < k / 8
  · rw [if_pos (by omega), decide_eq_true (by omega), testBit_ones (by omega), Bool.or_true]
  rw [if_neg (by omega)]
  by_cases heq : p / 8 = k / 8
  · have hle : p % 8 ≤ k % 8 ↔ p ≤ k := by omega
    rw [if_pos heq, UInt8.toNat_or, Nat.testBit_or, testBit_createMask p (by omega)]
    simp only [heq, hle]
  · rw [if_neg heq, decide_eq_false (by omega), Bool.or_false]

/-- **`subnetMask` sets the bits before the prefix.** -/
theorem subnetMask_bits (wrapv : Bool) {p : Nat} (hp : p < 128) :
    ∃ r, subnetMask wrapv p = some r ∧ ∀ k, k < 128 → r.value.getMsbD k = decide (k < p) := by
  have hi : p / 8 < 16 := by omega
  rw [subnetMask, dif_pos hi, createMask_byte]
  refine ⟨_, rfl, fun k hk => ?_⟩
  have hk' : k / 8 < 16 := by omega
  rw [getMsbD_value _ hk, getElem_setFrom _ _ _ _ hk', Vector.getElem_set hi hk']
  by_cases hlt : k / 8 < p / 8
  · rw [if_pos (by omega), decide_eq_true (by omega), testBit_ones (by omega)]
  rw [if_neg (by omega)]
  by_cases heq : p / 8 = k / 8
  · have hmask := getMsbD_prefixMask (w := 8) (p := p % 8) (k := k % 8) (by omega) (by omega)
    have hlt : k % 8 < p % 8 ↔ k < p := by omega
    rw [BitVec.getMsbD, decide_eq_true (by omega)] at hmask
    rw [if_pos heq, ← UInt8.ofBitVec_not, BitVec.not_not, UInt8.toNat_ofBitVec, BitVec.testBit_toNat]
    simp only [hlt] at hmask
    grind
  · rw [if_neg heq, Vector.getElem_replicate, decide_eq_false (by omega)]
    simp

/-- A byte of the address is zero when its bits are. -/
theorem byte_eq_zero_iff (a : IPv6Address) {i : Nat} (hi : i < 16) :
    a.m_addr.s6_addr[i] = 0 ↔ ∀ k, k / 8 = i → a.value.getMsbD k = false := by
  constructor
  · rintro h k rfl
    rw [getMsbD_value a (by omega), h]
    simp
  · intro h
    have hbits : a.m_addr.s6_addr[i].toNat = 0 := by
      refine Nat.eq_of_testBit_eq fun j => ?_
      rw [Nat.zero_testBit]
      by_cases hj : j < 8
      · have hbit := h (8 * i + (7 - j)) (by omega)
        rw [getMsbD_value a (by omega)] at hbit
        have hdiv : (8 * i + (7 - j)) / 8 = i := by omega
        have hmod : 7 - (8 * i + (7 - j)) % 8 = j := by omega
        simpa only [hdiv, hmod] using hbit
      · refine Nat.testBit_lt_two_pow (Nat.lt_of_lt_of_le a.m_addr.s6_addr[i].toNat_lt ?_)
        exact Nat.pow_le_pow_right (by decide) (by omega)
    rw [← UInt8.toNat_inj, hbits]
    rfl

/-- **The masks of one address are right exactly when the byte of the prefix is
there and zero.** -/
theorem masksRight_iff_byte (wrapv : Bool) (a : IPv6Address) {p : Nat} (hp : p ≤ 128) :
    MasksRight wrapv a p ↔ a.m_addr.s6_addr[p / 8]? = some 0 := by
  constructor
  · intro h
    obtain ⟨r, hr, hval, -, -⟩ := h.network
    have hlt : p < 128 := by
      refine Nat.lt_of_not_le fun hp' => ?_
      rw [networkAddress, dif_neg (by omega)] at hr
      cases hr
    have hi : p / 8 < 16 := by omega
    obtain ⟨r', hr', -, -, hbits⟩ := networkAddress_bits wrapv a hlt
    obtain rfl : r' = r := Option.some.inj (hr'.symm.trans hr)
    rw [Vector.getElem?_eq_getElem hi, (byte_eq_zero_iff a hi).2]
    intro k hk
    have hbit := hbits k (by omega)
    rw [hval, BitVec.getMsbD_and, getMsbD_prefixMask hp (by omega)] at hbit
    -- the mask keeps the bits before the prefix, the code those from it on
    have hside : (k < p) ↔ ¬(k / 8 < p / 8 ∨ (k / 8 = p / 8 ∧ p ≤ k)) := by omega
    simp only [hside] at hbit
    grind
  · intro h
    have hi : p / 8 < 16 := by
      refine Nat.lt_of_not_le fun hi => ?_
      rw [Vector.getElem?_eq_none (by omega)] at h
      cases h
    have hlt : p < 128 := by omega
    rw [Vector.getElem?_eq_getElem hi, Option.some.injEq, byte_eq_zero_iff a hi] at h
    obtain ⟨n, hn, hnp, hnf, hnbits⟩ := networkAddress_bits wrapv a hlt
    obtain ⟨b, hb, hbp, hbf, hbbits⟩ := broadcastAddress_bits wrapv a hlt
    obtain ⟨m, hm, hmbits⟩ := subnetMask_bits wrapv hlt
    refine ⟨⟨n, hn, BitVec.eq_of_getMsbD_eq fun k hk => ?_, hnp, hnf⟩,
      ⟨b, hb, BitVec.eq_of_getMsbD_eq fun k hk => ?_, hbp, hbf⟩,
      ⟨m, hm, BitVec.eq_of_getMsbD_eq fun k hk => ?_⟩⟩
    · rw [hnbits k hk, BitVec.getMsbD_and, getMsbD_prefixMask hp hk]
      by_cases hbyte : k / 8 = p / 8
      · rw [h k hbyte, Bool.false_and, Bool.false_and]
      · have hside : k / 8 < p / 8 ∨ (k / 8 = p / 8 ∧ p ≤ k) ↔ k < p := by omega
        simp only [hside]
    · rw [hbbits k hk, BitVec.getMsbD_or, BitVec.getMsbD_not, getMsbD_prefixMask hp hk]
      grind
    · rw [hmbits k hk, getMsbD_prefixMask hp hk]

/-- **The masks of an IPv6 prefix are right exactly when the byte that the prefix
ends in is zero.** For two addresses: both have the right masks, and the same
network exactly when their first `p` bits agree, just when byte `p / 8` of both
is there and zero; at prefix 128 it is not there. -/
theorem masksRight_iff_zero (wrapv : Bool) (a b : IPv6Address) {p : Nat} (hp : p ≤ 128) :
    (MasksRight wrapv a p ∧ MasksRight wrapv b p ∧
      (SameNetwork wrapv a b p ↔ ∀ k < p, a.value.getMsbD k = b.value.getMsbD k)) ↔
      a.m_addr.s6_addr[p / 8]? = some 0 ∧ b.m_addr.s6_addr[p / 8]? = some 0 := by
  rw [← masksRight_iff_byte wrapv a hp, ← masksRight_iff_byte wrapv b hp]
  constructor
  · rintro ⟨ha, hb, -⟩
    exact ⟨ha, hb⟩
  · rintro ⟨ha, hb⟩
    refine ⟨ha, hb, ?_⟩
    obtain ⟨r, hr, hrv, -, -⟩ := ha.network
    obtain ⟨s, hs, hsv, -, -⟩ := hb.network
    rw [SameNetwork, hr, hs, Option.map_some, Option.map_some, Option.some.injEq, hrv, hsv,
      and_prefixMask_eq_iff hp]

/-- `2001:db8:0:1::1`. -/
def firstSubnet : IPv6Address := ofBytes #v[0x20, 0x01, 0x0d, 0xb8, 0, 0, 0, 1, 0, 0, 0, 0, 0, 0, 0, 1] 80

/-- `2001:db8:0:2::15`. -/
def secondSubnet : IPv6Address := ofBytes #v[0x20, 0x01, 0x0d, 0xb8, 0, 0, 0, 2, 0, 0, 0, 0, 0, 0, 0, 0x15] 80

/-- The statement at two subnets of 64 bits. -/
theorem masksRight_iff_zero_subnets :
    64 ≤ 128 ∧ ((MasksRight true firstSubnet 64 ∧ MasksRight true secondSubnet 64 ∧
      (SameNetwork true firstSubnet secondSubnet 64 ↔
        ∀ k < 64, firstSubnet.value.getMsbD k = secondSubnet.value.getMsbD k)) ↔
      firstSubnet.m_addr.s6_addr[64 / 8]? = some 0 ∧ secondSubnet.m_addr.s6_addr[64 / 8]? = some 0) :=
  ⟨by decide, masksRight_iff_zero true _ _ (by decide)⟩

/-- The network of `fe80::215:5dff:fe88:d8a` at prefix 64 keeps the byte `02`. -/
theorem network_64_wrong : ¬MasksRight true
    (ofBytes #v[0xfe, 0x80, 0, 0, 0, 0, 0, 0, 0x02, 0x15, 0x5d, 0xff, 0xfe, 0x88, 0x0d, 0x8a] 0) 64 := by
  rw [masksRight_iff_byte true _ (by decide)]
  decide

end IPv6Address

end Net
end Wuchat
