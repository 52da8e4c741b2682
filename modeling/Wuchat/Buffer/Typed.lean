/-
# Typed calls on a byte array

`bytearray.cpp`, the typed calls: integers of a fixed width in the byte order that
`setLittleEndian` chose, integers of variable length (seven bits to a byte, signed ones
folded first), floats as their bit patterns, and strings behind their length.

A typed call is a program on the byte array and its byte order (`Use`): it has no result
when the array's own call has none, and an exception ends it.  The machine is
little-endian.  `std::string::size()` is below `2^64`.
-/

import Wuchat.Foundation.Endian
import Wuchat.Foundation.Varint
import Wuchat.Buffer.ByteArray

namespace Wuchat
namespace Buffer

open Foundation Streams

/-- `LITTLE_ENDIAN` and `BIG_ENDIAN`. -/
inductive Endian
  | little
  | big
  deriving DecidableEq, Repr

/-- `BYTE_ORDER` of the machine. -/
def byteOrder : Endian := .little

/-- A byte array and its `m_endian`. -/
structure EndianArray where
  array : ByteArray
  endian : Endian
  deriving DecidableEq, Repr

/-- `ByteArray(base_size)`. -/
def EndianArray.new (junk : Junk) (baseSize : Nat) : EndianArray := ⟨.new junk baseSize, .big⟩

/-- A program on a byte array. -/
def Use (α : Type) := EndianArray → Option (Except String α × EndianArray)

/-- Uses one after the other; an exception ends them. -/
instance : Monad Use where
  pure x := fun s => some (.ok x, s)
  bind m f := fun s =>
    match m s with
    | none => none
    | some (.error e, s') => some (.error e, s')
    | some (.ok x, s') => f x s'

/-! ### The calls on bytes -/

/-- `setLittleEndian(v)`. -/
def setLittleEndian (v : Bool) : Use Unit := fun s => some (.ok (), { s with endian := if v then .little else .big })

/-- `write(buf, size)`. -/
def write (junk : Junk) (data : Bytes) : Use Unit := fun s =>
  (s.array.write junk data).map fun array => (.ok (), { s with array })

/-- `read(buf, size)`. -/
def read (size : Nat) : Use Bytes := fun s =>
  (s.array.read size).map fun r => (r.1, { s with array := r.2 })

/-- `setPosition(pos)`. -/
def setPosition (pos : Nat) : Use Unit := fun s =>
  (s.array.setPosition pos).map fun r => (r.1, { s with array := r.2 })

/-- `m_endian`. -/
def getEndian : Use Endian := fun s => some (.ok s.endian, s)

/-! ### Integers of a fixed width -/

/-- `writeFixInt16` … `writeFixUint64`: a value of `n` bytes, swapped unless the order is the
machine's. -/
def writeFix (junk : Junk) (n val : Nat) : Use Unit := do
  let endian ← getEndian
  let val := if endian ≠ byteOrder then byteSwap n val else val
  write junk (leBytes n val)

/-- `readFixInt16` … `readFixUint64`. -/
def readFix (n : Nat) : Use Nat := do
  let v ← read n
  let endian ← getEndian
  if endian = byteOrder then pure (leValue v) else pure (byteSwap n (leValue v))

/-- A signed byte. -/
def writeFixInt8 (junk : Junk) (val : Int8) : Use Unit := write junk (leBytes 1 val.toUInt8.toNat)

/-- A byte. -/
def writeFixUint8 (junk : Junk) (val : UInt8) : Use Unit := write junk (leBytes 1 val.toNat)

/-- A signed value of 16 bits, in the current byte order. -/
def writeFixInt16 (junk : Junk) (val : Int16) : Use Unit := writeFix junk 2 val.toUInt16.toNat

/-- A value of 16 bits. -/
def writeFixUint16 (junk : Junk) (val : UInt16) : Use Unit := writeFix junk 2 val.toNat

/-- A signed value of 32 bits. -/
def writeFixInt32 (junk : Junk) (val : Int32) : Use Unit := writeFix junk 4 val.toUInt32.toNat

/-- A value of 32 bits. -/
def writeFixUint32 (junk : Junk) (val : UInt32) : Use Unit := writeFix junk 4 val.toNat

/-- A signed value of 64 bits. -/
def writeFixInt64 (junk : Junk) (val : Int64) : Use Unit := writeFix junk 8 val.toUInt64.toNat

/-- A value of 64 bits. -/
def writeFixUint64 (junk : Junk) (val : UInt64) : Use Unit := writeFix junk 8 val.toNat

/-- A signed byte, read. -/
def readFixInt8 : Use Int8 := do
  let v ← read 1
  pure (UInt8.ofNat (leValue v)).toInt8

/-- A byte, read. -/
def readFixUint8 : Use UInt8 := do
  let v ← read 1
  pure (UInt8.ofNat (leValue v))

/-- A signed value of 16 bits, read in the current byte order. -/
def readFixInt16 : Use Int16 := do
  let v ← readFix 2
  pure (UInt16.ofNat v).toInt16

/-- A value of 16 bits, read. -/
def readFixUint16 : Use UInt16 := do
  let v ← readFix 2
  pure (UInt16.ofNat v)

/-- A signed value of 32 bits, read. -/
def readFixInt32 : Use Int32 := do
  let v ← readFix 4
  pure (UInt32.ofNat v).toInt32

/-- A value of 32 bits, read. -/
def readFixUint32 : Use UInt32 := do
  let v ← readFix 4
  pure (UInt32.ofNat v)

/-- A signed value of 64 bits, read. -/
def readFixInt64 : Use Int64 := do
  let v ← readFix 8
  pure (UInt64.ofNat v).toInt64

/-- A value of 64 bits, read. -/
def readFixUint64 : Use UInt64 := do
  let v ← readFix 8
  pure (UInt64.ofNat v)

/-! ### Integers of variable length -/

/-- `EncodeZigzag32(val)`, with the wrapping of two's complement. -/
def encodeZigzag32 (val : Int32) : UInt32 := if val < 0 then (-val).toUInt32 * 2 - 1 else (val * 2).toUInt32

/-- `EncodeZigzag64(val)`. -/
def encodeZigzag64 (val : Int64) : UInt64 := if val < 0 then (-val).toUInt64 * 2 - 1 else (val * 2).toUInt64

/-- `DecodeZigzag32(val)`. -/
def decodeZigzag32 (val : UInt32) : Int32 := ((val >>> 1) ^^^ -(val &&& 1)).toInt32

/-- `DecodeZigzag64(val)`. -/
def decodeZigzag64 (val : UInt64) : Int64 := ((val >>> 1) ^^^ -(val &&& 1)).toInt64

/-- The body of `writeUint32` and `writeUint64`, with an array `tmp` of `room` bytes; a byte
behind its end has no result. -/
def writeVarint (junk : Junk) (room val : Nat) : Use Unit := fun s =>
  match varintBytes room val with
  | none => none
  | some tmp => write junk tmp s

/-- The loop of `readUint32` and `readUint64`, for `i` from the first argument's turns on. -/
def readVarintLoop (width : Nat) : Nat → Nat → Nat → Use Nat
  | 0, _, result => pure result
  | turns + 1, i, result => do
    let b ← readFixUint8
    if b < 0x80 then pure (result ||| b.toNat <<< i % 2 ^ width)
    else readVarintLoop width turns (i + 7) (result ||| (b.toNat &&& 0x7f) <<< i % 2 ^ width)

/-- `for (int i = 0; i < width; i += 7)`. -/
def readVarint (width : Nat) : Use Nat := readVarintLoop width ((width + 6) / 7) 0 0

/-- A varint of 32 bits, in at most five bytes. -/
def writeUint32 (junk : Junk) (val : UInt32) : Use Unit := writeVarint junk 5 val.toNat

/-- A varint of 64 bits, in at most ten. -/
def writeUint64 (junk : Junk) (val : UInt64) : Use Unit := writeVarint junk 10 val.toNat

/-- A signed value of 32 bits as the varint of its zigzag number. -/
def writeInt32 (junk : Junk) (val : Int32) : Use Unit := writeUint32 junk (encodeZigzag32 val)

/-- A signed value of 64 bits so. -/
def writeInt64 (junk : Junk) (val : Int64) : Use Unit := writeUint64 junk (encodeZigzag64 val)

/-- A varint of 32 bits, read. -/
def readUint32 : Use UInt32 := do
  let v ← readVarint 32
  pure (UInt32.ofNat v)

/-- A varint of 64 bits, read. -/
def readUint64 : Use UInt64 := do
  let v ← readVarint 64
  pure (UInt64.ofNat v)

/-- A signed value of 32 bits, read from its zigzag number. -/
def readInt32 : Use Int32 := do
  let v ← readUint32
  pure (decodeZigzag32 v)

/-- A signed value of 64 bits, read so. -/
def readInt64 : Use Int64 := do
  let v ← readUint64
  pure (decodeZigzag64 v)

/-! ### Floats, as bit patterns -/

/-- A float, by its bits. -/
def writeFloat (junk : Junk) (val : UInt32) : Use Unit := writeFixUint32 junk val

/-- A double, by its bits. -/
def writeDouble (junk : Junk) (val : UInt64) : Use Unit := writeFixUint64 junk val

/-- A float's bits, read. -/
def readFloat : Use UInt32 := readFixUint32

/-- A double's bits, read. -/
def readDouble : Use UInt64 := readFixUint64

/-! ### Strings -/

/-- `std::string`: bytes with a length that is a `size_t`. -/
structure StdString where
  bytes : Bytes
  length_lt : bytes.length < sizeMod

/-- `writeStringFix16(val)`; the length is cut to 16 bits.  The two writes may each add blocks. -/
def writeStringFix16 (junk junk' : Junk) (val : StdString) : Use Unit := do
  writeFixUint16 junk (UInt16.ofNat val.bytes.length)
  write junk' val.bytes

/-- `writeStringFix32(val)`; the length is cut to 32 bits. -/
def writeStringFix32 (junk junk' : Junk) (val : StdString) : Use Unit := do
  writeFixUint32 junk (UInt32.ofNat val.bytes.length)
  write junk' val.bytes

/-- A string behind its length in 64 bits. -/
def writeStringFix64 (junk junk' : Junk) (val : StdString) : Use Unit := do
  writeFixUint64 junk (UInt64.ofNat val.bytes.length)
  write junk' val.bytes

/-- A string behind its length as a varint. -/
def writeStringVint (junk junk' : Junk) (val : StdString) : Use Unit := do
  writeUint64 junk (UInt64.ofNat val.bytes.length)
  write junk' val.bytes

/-- `readStringFix16()`: the bytes of the string. -/
def readStringFix16 : Use Bytes := do
  let len ← readFixUint16
  read len.toNat

/-- A string behind its length in 32 bits, read. -/
def readStringFix32 : Use Bytes := do
  let len ← readFixUint32
  read len.toNat

/-- A string behind its length in 64 bits, read. -/
def readStringFix64 : Use Bytes := do
  let len ← readFixUint64
  read len.toNat

/-- A string behind its length as a varint, read. -/
def readStringVint : Use Bytes := do
  let len ← readUint64
  read len.toNat

end Buffer
end Wuchat
