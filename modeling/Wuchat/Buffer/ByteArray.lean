/-
# The byte array

`bytearray.cpp`: an array kept in a chain of memory blocks of one size, with a position
for reading and writing.

The chain from `m_root` on is a list of blocks.  `m_cur` is the place of its block in the
chain, or none when it is null.  A call that follows a null pointer, copies outside
a block or does not end has no result; a call that throws `out_of_range` has the text of
the exception as its result.  The contents of a new block are what `new char[s]` finds
there.

The `size_t` variables are natural numbers: the sizes stay below `2^64`.
-/

import Wuchat.Foundation.Blocks
import Wuchat.Streams.Stream

namespace Wuchat
namespace Buffer

open Foundation Streams

/-- `ByteArray`. -/
structure ByteArray where
  baseSize : Nat
  position : Nat
  capacity : Nat
  size : Nat
  nodes : List Bytes
  cur : Option Nat
  deriving DecidableEq, Repr

/-- What the memory of new blocks holds: for each new block, its bytes. -/
def Junk := Nat → Nat → UInt8

/-- `new Node(baseSize)`, the `k`-th one of a call. -/
def newNode (junk : Junk) (baseSize k : Nat) : Bytes := (List.range baseSize).map (junk k)

namespace ByteArray

/-- `ByteArray(base_size)`. -/
def new (junk : Junk) (baseSize : Nat) : ByteArray where
  baseSize := baseSize
  position := 0
  capacity := baseSize
  size := 0
  nodes := [newNode junk baseSize 0]
  cur := some 0

/-- `*m_cur`. -/
def node (ba : ByteArray) : Option Bytes := ba.cur.bind (ba.nodes[·]?)

/-- `m_cur->next`. -/
def next (ba : ByteArray) : Option Nat :=
  ba.cur.bind fun i => if i + 1 < ba.nodes.length then some (i + 1) else none

/-- `getReadSize()`. -/
def getReadSize (ba : ByteArray) : Nat := ba.size - ba.position

/-- `getCapacity()`: the room behind the position. -/
def getCapacity (ba : ByteArray) : Nat := ba.capacity - ba.position

/-- `clear()`. -/
def clear (ba : ByteArray) : Option ByteArray :=
  match ba.nodes with
  | [] => none
  | root :: _ => some { ba with position := 0, size := 0, capacity := ba.baseSize, nodes := [root], cur := some 0 }

/-- `addCapacity(size)`. -/
def addCapacity (junk : Junk) (size : Nat) (ba : ByteArray) : ByteArray :=
  let old := ba.getCapacity
  if size ≤ old then ba
  else
    let size := size - old
    let count := size / ba.baseSize + if size % ba.baseSize ≠ 0 then 1 else 0
    { ba with
      capacity := ba.capacity + count * ba.baseSize
      nodes := ba.nodes ++ (List.range count).map (newNode junk ba.baseSize)
      cur := if old = 0 then (if 0 < count then some ba.nodes.length else none) else ba.cur }

/-- `memcpy(m_cur->ptr + npos, data, size)`. -/
def copyIn (npos : Nat) (data : Bytes) (ba : ByteArray) : Option ByteArray := do
  let i ← ba.cur
  let node ← ba.nodes[i]?
  let node' ← poke node npos data
  some { ba with nodes := ba.nodes.set i node' }

/-- The loop of `write`.  Every turn but the last moves to the next block. -/
def writeLoop : Nat → Nat → Nat → Bytes → ByteArray → Option ByteArray
  | 0, _, _, _, _ => none
  | fuel + 1, npos, ncap, data, ba => do
    if data = [] then some ba
    else if data.length ≤ ncap then
      let ba ← ba.copyIn npos data
      let node ← ba.node
      some { ba with
        cur := if node.length = npos + data.length then ba.next else ba.cur
        position := ba.position + data.length }
    else
      let ba ← ba.copyIn npos (data.take ncap)
      let ba := { ba with position := ba.position + ncap, cur := ba.next }
      let node ← ba.node
      writeLoop fuel 0 node.length (data.drop ncap) ba

/-- `write(buf, size)`, for the `size` bytes at `buf`. -/
def write (junk : Junk) (data : Bytes) (ba : ByteArray) : Option ByteArray :=
  if data = [] then some ba
  else do
    let ba := ba.addCapacity junk data.length
    let npos := ba.position % ba.baseSize
    let node ← ba.node
    let ba ← writeLoop ba.nodes.length npos (node.length - npos) data ba
    some { ba with size := if ba.size < ba.position then ba.position else ba.size }

/-- `memcpy(buf, m_cur->ptr + npos, size)`. -/
def copyOut (npos size : Nat) (ba : ByteArray) : Option Bytes := do
  let node ← ba.node
  if npos + size ≤ node.length then some ((node.drop npos).take size) else none

/-- The loop of `read`. -/
def readLoop : Nat → Nat → Nat → Nat → Bytes → ByteArray → Option (Bytes × ByteArray)
  | 0, _, _, _, _, _ => none
  | fuel + 1, npos, ncap, size, buf, ba => do
    if size = 0 then some (buf, ba)
    else if size ≤ ncap then
      let bytes ← ba.copyOut npos size
      let node ← ba.node
      some (buf ++ bytes, { ba with
        cur := if node.length = npos + size then ba.next else ba.cur
        position := ba.position + size })
    else
      let bytes ← ba.copyOut npos ncap
      let ba := { ba with position := ba.position + ncap, cur := ba.next }
      let node ← ba.node
      readLoop fuel 0 node.length (size - ncap) (buf ++ bytes) ba

/-- `read(buf, size)`: the bytes it puts at `buf`. -/
def read (size : Nat) (ba : ByteArray) : Option (Except String Bytes × ByteArray) :=
  if ba.getReadSize < size then some (.error "not enough length", ba)
  else do
    let npos := ba.position % ba.baseSize
    let node ← ba.node
    let (bytes, ba) ← readLoop ba.nodes.length npos (node.length - npos) size [] ba
    some (.ok bytes, ba)

/-- The loop of `setPosition`, on the chain from the `i`-th block on. -/
def seek : Nat → Nat → List Bytes → Option (Option Nat)
  | _, _, [] => none
  | pos, i, node :: rest =>
    if node.length < pos then seek (pos - node.length) (i + 1) rest
    else if pos = node.length then some (if rest = [] then none else some (i + 1))
    else some (some i)

/-- `setPosition(pos)`. -/
def setPosition (pos : Nat) (ba : ByteArray) : Option (Except String Unit × ByteArray) :=
  if ba.capacity < pos then some (.error "set_position out of range", ba)
  else do
    let cur ← seek pos 0 ba.nodes
    some (.ok (), { ba with position := pos, size := if ba.size < pos then pos else ba.size, cur := cur })

end ByteArray

end Buffer
end Wuchat
