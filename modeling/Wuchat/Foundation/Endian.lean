/-
# Integers in memory

On a little-endian machine an unsigned integer of `n` bytes lies in memory with
its lowest byte first (`leBytes`, `leValue`).  `byteSwap` turns the bytes of a
value round, so that what it returns lies in memory with the highest byte first.
-/

import Mathlib.Algebra.Group.Nat.Defs
import Wuchat.Foundation.CString

namespace Wuchat
namespace Foundation

/-- The `n` bytes of the value `v` in memory. -/
def leBytes : Nat → Nat → Bytes
  | 0, _ => []
  | n + 1, v => UInt8.ofNat v :: leBytes n (v / 256)

/-- The value of bytes in memory. -/
def leValue : Bytes → Nat
  | [] => 0
  | b :: bs => b.toNat + 256 * leValue bs

/-- `byteSwap` on an unsigned integer of `n` bytes. -/
def byteSwap (n v : Nat) : Nat := leValue (leBytes n v).reverse

/-- A number has as many bytes as asked for. -/
@[simp] theorem length_leBytes (n v : Nat) : (leBytes n v).length = n := by
  induction n generalizing v with
  | zero => rfl
  | succ n ih => rw [leBytes, List.length_cons, ih]

/-- **Memory holds the value modulo its width.** -/
theorem leValue_leBytes (n v : Nat) : leValue (leBytes n v) = v % 256 ^ n := by
  induction n generalizing v with
  | zero => rw [leBytes, leValue, Nat.pow_zero, Nat.mod_one]
  | succ n ih =>
    have hb : (UInt8.ofNat v).toNat = v % 256 := rfl
    rw [leBytes, leValue, ih, hb, Nat.pow_succ', Nat.mod_mul]

/-- The bytes of the value of bytes. -/
theorem leBytes_leValue (bs : Bytes) : leBytes bs.length (leValue bs) = bs := by
  induction bs with
  | nil => rfl
  | cons b bs ih =>
    have hb : (b.toNat + 256 * leValue bs) / 256 = leValue bs := by
      have := b.toNat_lt
      omega
    have hb' : UInt8.ofNat (b.toNat + 256 * leValue bs) = b := by
      rw [← UInt8.toNat_inj]
      show (b.toNat + 256 * leValue bs) % 256 = b.toNat
      have := b.toNat_lt
      omega
    rw [leValue, List.length_cons, leBytes, hb, hb', ih]

/-- The value of some bytes fits their number. -/
theorem leValue_lt (bs : Bytes) : leValue bs < 256 ^ bs.length := by
  induction bs with
  | nil => simp [leValue]
  | cons b bs ih =>
    have := b.toNat_lt
    rw [leValue, List.length_cons, Nat.pow_succ']
    omega

/-- **Swapping twice is nothing.** -/
theorem byteSwap_byteSwap (n v : Nat) : byteSwap n (byteSwap n v) = v % 256 ^ n := by
  have hlen : (leBytes n v).reverse.length = n := by rw [List.length_reverse, length_leBytes]
  have hswap : leBytes n (byteSwap n v) = (leBytes n v).reverse := by
    have := leBytes_leValue (leBytes n v).reverse
    rwa [hlen] at this
  rw [byteSwap, hswap, List.reverse_reverse, leValue_leBytes]

example : leBytes 2 (byteSwap 2 0x1234) = [0x12, 0x34] := by decide

end Foundation
end Wuchat
