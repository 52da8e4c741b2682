/-
# Socket addresses

The four kinds of `Address` each wrap a `sockaddr` structure.  The numbers in
these are stored as the network wants them: on the little-endian machines the
code is built for, `byteSwapOnLittleEndian` turns the bytes of a port or of an
IPv4 address round on the way in and on the way out (`getPort_setPort`).

What `operator<`, `operator==` and the system calls see of an address are the
`getAddrLen()` bytes at `getAddr()`, here `Address.bytes` (`Address.length_bytes`).
The length of a Unix address is set apart from its memory, so it is a field of
its own, at most the size of the structure.
-/

import Wuchat.Foundation.Bits

namespace Wuchat
namespace Net

open Foundation

/-- The family of IPv4. -/
def AF_INET : UInt16 := 2

/-- The family of IPv6. -/
def AF_INET6 : UInt16 := 10

/-- `byteSwapOnLittleEndian` on a `uint16_t`. -/
def byteSwapOnLittleEndian16 (t : UInt16) : UInt16 := UInt16.ofNat (byteSwap 2 t.toNat)

/-- `byteSwapOnLittleEndian` on a `uint32_t`. -/
def byteSwapOnLittleEndian32 (t : UInt32) : UInt32 := UInt32.ofNat (byteSwap 4 t.toNat)

/-- `sockaddr_in`. -/
structure SockaddrIn where
  sin_family : UInt16
  sin_port : UInt16
  s_addr : UInt32
  sin_zero : Vector UInt8 8
  deriving DecidableEq

/-- `sockaddr_in6`. -/
structure SockaddrIn6 where
  sin6_family : UInt16
  sin6_port : UInt16
  sin6_flowinfo : UInt32
  s6_addr : Vector UInt8 16
  sin6_scope_id : UInt32
  deriving DecidableEq

/-- `sockaddr_un`. -/
structure SockaddrUn where
  sun_family : UInt16
  sun_path : Vector UInt8 108
  deriving DecidableEq

/-- `sockaddr`. -/
structure Sockaddr where
  sa_family : UInt16
  sa_data : Vector UInt8 14
  deriving DecidableEq

/-- `IPv4Address`. -/
structure IPv4Address where
  m_addr : SockaddrIn
  deriving DecidableEq

/-- `IPv6Address`. -/
structure IPv6Address where
  m_addr : SockaddrIn6
  deriving DecidableEq

/-- A Unix address and its length, which does not go past its memory. -/
structure UnixAddress where
  m_addr : SockaddrUn
  m_length : Nat
  length_le : m_length ≤ 110
  deriving DecidableEq

/-- `UnknownAddress`: an address of any other family. -/
structure UnknownAddress where
  m_addr : Sockaddr
  deriving DecidableEq

/-- An address of any kind. -/
inductive Address where
  | ipv4 (a : IPv4Address)
  | ipv6 (a : IPv6Address)
  | unix (a : UnixAddress)
  | unknown (a : UnknownAddress)
  deriving DecidableEq

namespace SockaddrIn

/-- The structure in memory. -/
def memory (a : SockaddrIn) : Bytes :=
  leBytes 2 a.sin_family.toNat ++ leBytes 2 a.sin_port.toNat ++ leBytes 4 a.s_addr.toNat ++ a.sin_zero.toList

end SockaddrIn

namespace SockaddrIn6

/-- The structure in memory. -/
def memory (a : SockaddrIn6) : Bytes :=
  leBytes 2 a.sin6_family.toNat ++ leBytes 2 a.sin6_port.toNat ++ leBytes 4 a.sin6_flowinfo.toNat ++
    a.s6_addr.toList ++ leBytes 4 a.sin6_scope_id.toNat

end SockaddrIn6

namespace IPv4Address

/-- `IPv4Address(uint32_t address, uint16_t port)`. -/
def ofValue (address : UInt32) (port : UInt16) : IPv4Address where
  m_addr :=
    { sin_family := AF_INET, sin_port := byteSwapOnLittleEndian16 port,
      s_addr := byteSwapOnLittleEndian32 address, sin_zero := Vector.replicate 8 0 }

/-- The port in the order of the host. -/
def getPort (a : IPv4Address) : UInt16 := byteSwapOnLittleEndian16 a.m_addr.sin_port

/-- The port set, in the order of the network. -/
def setPort (a : IPv4Address) (p : UInt16) : IPv4Address :=
  { a with m_addr := { a.m_addr with sin_port := byteSwapOnLittleEndian16 p } }

end IPv4Address

namespace IPv6Address

/-- `IPv6Address(const uint8_t address[16], uint16_t port)`. -/
def ofBytes (address : Vector UInt8 16) (port : UInt16) : IPv6Address where
  m_addr :=
    { sin6_family := AF_INET6, sin6_port := byteSwapOnLittleEndian16 port, sin6_flowinfo := 0,
      s6_addr := address, sin6_scope_id := 0 }

/-- The port of an IPv6 address. -/
def getPort (a : IPv6Address) : UInt16 := byteSwapOnLittleEndian16 a.m_addr.sin6_port

/-- Its setter. -/
def setPort (a : IPv6Address) (p : UInt16) : IPv6Address :=
  { a with m_addr := { a.m_addr with sin6_port := byteSwapOnLittleEndian16 p } }

end IPv6Address

namespace UnixAddress

/-- `getAddrLen()` bytes of the structure in memory. -/
def memory (a : UnixAddress) : Bytes :=
  (leBytes 2 a.m_addr.sun_family.toNat ++ a.m_addr.sun_path.toList).take a.m_length

end UnixAddress

namespace Address

/-- The length of an address, as it is given to the kernel. -/
def getAddrLen : Address → Nat
  | ipv4 _ => 16
  | ipv6 _ => 28
  | unix a => a.m_length
  | unknown _ => 16

/-- The `getAddrLen()` bytes at `getAddr()`. -/
def bytes : Address → Bytes
  | ipv4 a => a.m_addr.memory
  | ipv6 a => a.m_addr.memory
  | unix a => a.memory
  | unknown a => leBytes 2 a.m_addr.sa_family.toNat ++ a.m_addr.sa_data.toList

/-- An address has as many bytes as its length says. -/
@[simp] theorem length_bytes (a : Address) : a.bytes.length = a.getAddrLen := by
  cases a with
  | ipv4 a => simp [bytes, SockaddrIn.memory, getAddrLen]
  | ipv6 a => simp [bytes, SockaddrIn6.memory, getAddrLen]
  | unix a =>
    have := a.length_le
    simp [bytes, UnixAddress.memory, getAddrLen, this]
  | unknown a => simp [bytes, getAddrLen]

end Address

/-- Two swaps are none. -/
theorem byteSwapOnLittleEndian16_twice (t : UInt16) :
    byteSwapOnLittleEndian16 (byteSwapOnLittleEndian16 t) = t := by
  have hlt : byteSwap 2 t.toNat < 2 ^ 16 := by
    have h := leValue_lt (leBytes 2 t.toNat).reverse
    rw [List.length_reverse, length_leBytes] at h
    rw [byteSwap]
    omega
  have ht : t.toNat % 256 ^ 2 = t.toNat := Nat.mod_eq_of_lt t.toNat_lt
  have hback : byteSwap 2 (byteSwap 2 t.toNat) = t.toNat := by rw [byteSwap_byteSwap, ht]
  rw [byteSwapOnLittleEndian16, byteSwapOnLittleEndian16, UInt16.toNat_ofNat_of_lt' hlt, hback, UInt16.ofNat_toNat]

/-- **A port is stored and read back.** -/
theorem IPv4Address.getPort_setPort (a : IPv4Address) (p : UInt16) : (a.setPort p).getPort = p :=
  byteSwapOnLittleEndian16_twice p

/-- **A port is stored and read back.** -/
theorem IPv6Address.getPort_setPort (a : IPv6Address) (p : UInt16) : (a.setPort p).getPort = p :=
  byteSwapOnLittleEndian16_twice p

example : ((IPv4Address.ofValue 0x7f000001 80).m_addr.memory).take 8 = [2, 0, 0, 80, 127, 0, 0, 1] := by
  decide

end Net
end Wuchat
