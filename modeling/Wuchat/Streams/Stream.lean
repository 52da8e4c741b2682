/-
# Streams

`streams/stream.cpp` and `streams/socket_stream.cpp`: the loops of `readFixSize`
and `writeFixSize` over the calls `read` and `write` of a socket.

What a call answers is up to the kernel and the peer (`Io`): `count k` takes at
most `k` bytes (`0` when the peer has closed), `fail` is the `-1` of an error.  The
answer of `read` and `write` is a `size_t`, so `-1` is `2^64 - 1`, which the test
`len <= 0` of the loops does not catch: `offset` goes back by one and `left` grows by
one.  All arithmetic here is modulo `2^64`.  Every call of the loops takes the next
answer of a list; when the list is used up, calls take all they can.

A `Link` is both directions of one stream.  A program that uses it (`Act`) ends with
a value, hangs (a closed socket answers `-1` for ever), or faults (a read writes
outside the buffer it was given).
-/

import Mathlib.Algebra.Group.Nat.Defs
import Wuchat.Foundation.CString

namespace Wuchat
namespace Streams

open Foundation

/-- The number of values of `size_t`. -/
def sizeMod : Nat := 2 ^ 64

/-- The answer of one `read` or `write` call. -/
inductive Io
  | count (k : Nat)
  | fail
  deriving DecidableEq, Repr

/-- The answer takes something when there is something. -/
def Io.Moves : Io → Prop
  | .count k => 0 < k
  | .fail => False

/-- Whether an answer moves bytes can be computed. -/
instance : (io : Io) → Decidable io.Moves
  | .count k => inferInstanceAs (Decidable (0 < k))
  | .fail => .isFalse id

/-- What `readFixSize` has done: its result, what it wrote at which offset of its
buffer, the answers left and the bytes left. -/
structure Received where
  ret : Nat
  writes : List (Nat × Bytes)
  reads : List Io
  input : Bytes
  deriving DecidableEq, Repr

/-- The loop of `Stream::readFixSize(buffer, length)`. -/
def readLoop (length : Nat) : List Io → Bytes → Nat → Nat → Received
  | [], input, offset, left =>
    if left = 0 then ⟨length, [], [], input⟩
    else if input = [] then ⟨0, [], [], input⟩
    else if left ≤ input.length then ⟨length, [(offset, input.take left)], [], input.drop left⟩
    else ⟨0, [(offset, input)], [], []⟩
  | .count k :: reads, input, offset, left =>
    if left = 0 then ⟨length, [], .count k :: reads, input⟩
    else
      let len := min k (min left input.length)
      if len = 0 then ⟨0, [], reads, input⟩
      else
        let r := readLoop length reads (input.drop len) ((offset + len) % sizeMod) (left - len)
        { r with writes := (offset, input.take len) :: r.writes }
  | .fail :: reads, input, offset, left =>
    if left = 0 then ⟨length, [], .fail :: reads, input⟩
    else readLoop length reads input ((offset + (sizeMod - 1)) % sizeMod) ((left + 1) % sizeMod)

/-- `Stream::readFixSize(buffer, length)`. -/
def readFixSize (length : Nat) (reads : List Io) (input : Bytes) : Received :=
  readLoop length reads input 0 length

/-- What `writeFixSize` has done: its result, the parts of its buffer it handed to
`write` (offset and count), and the answers left. -/
structure Sent where
  ret : Nat
  parts : List (Nat × Nat)
  writes : List Io
  deriving DecidableEq, Repr

/-- The loop of `Stream::writeFixSize(buffer, length)`. -/
def writeLoop (length : Nat) : List Io → Nat → Nat → Sent
  | [], offset, left => ⟨length, if left = 0 then [] else [(offset, left)], []⟩
  | .count k :: writes, offset, left =>
    if left = 0 then ⟨length, [], .count k :: writes⟩
    else
      let len := min k left
      if len = 0 then ⟨0, [], writes⟩
      else
        let r := writeLoop length writes ((offset + len) % sizeMod) (left - len)
        { r with parts := (offset, len) :: r.parts }
  | .fail :: writes, offset, left =>
    if left = 0 then ⟨length, [], .fail :: writes⟩
    else writeLoop length writes ((offset + (sizeMod - 1)) % sizeMod) ((left + 1) % sizeMod)

/-- `Stream::writeFixSize(buffer, length)`. -/
def writeFixSize (length : Nat) (writes : List Io) : Sent := writeLoop length writes 0 length

/-! ### Both directions of a stream -/

/-- A stream: the bytes still to come in, the answers to its reads, the bytes that
went out, the answers to its writes, and whether it was closed. -/
structure Link where
  input : Bytes
  reads : List Io
  output : Bytes
  writes : List Io
  closed : Bool
  deriving DecidableEq, Repr

/-- How a use of a stream ends. -/
inductive Res (α : Type)
  | ok (x : α) (l : Link)
  | hang
  | fault
  deriving DecidableEq, Repr

/-- A use of a stream. -/
def Act (α : Type) := Link → Res α

/-- Acts one after the other; a failure ends them. -/
instance : Monad Act where
  pure x := fun l => .ok x l
  bind m f := fun l =>
    match m l with
    | .ok x l' => f x l'
    | .hang => .hang
    | .fault => .fault

/-- A program goes on from where the one before it ended. -/
theorem Act.bind_ok {α β : Type} {m : Act α} {f : α → Act β} {l l' : Link} {x : α}
    (h : m l = .ok x l') : (m >>= f) l = f x l' := by
  show (match m l with | .ok x l' => f x l' | .hang => .hang | .fault => .fault) = _
  rw [h]

/-- A program that ends had a first part that ended. -/
theorem Act.of_bind_ok {α β : Type} {m : Act α} {f : α → Act β} {l l'' : Link} {y : β}
    (h : (m >>= f) l = .ok y l'') : ∃ x l', m l = .ok x l' ∧ f x l' = .ok y l'' := by
  replace h : (match m l with | .ok x l' => f x l' | .hang => .hang | .fault => .fault) = .ok y l'' := h
  split at h
  · rename_i x l' hm
    exact ⟨x, l', hm, h⟩
  · cases h
  · cases h

/-- Write bytes into a buffer, `none` outside it. -/
def poke (buf : Bytes) (i : Nat) (bs : Bytes) : Option Bytes :=
  if i + bs.length ≤ buf.length then some (buf.take i ++ bs ++ buf.drop (i + bs.length)) else none

/-- The writes of a read, into a buffer from the index `pos` on. -/
def pokes (pos : Nat) : Bytes → List (Nat × Bytes) → Option Bytes
  | buf, [] => some buf
  | buf, (offset, bs) :: writes =>
    match poke buf ((pos + offset) % sizeMod) bs with
    | none => none
    | some buf' => pokes pos buf' writes

/-- `stream->readFixSize(&buf[pos], length)`: the result, the buffer after it, and where
it was written (index and count). -/
def Link.readFixSize (buf : Bytes) (pos length : Nat) : Act (Nat × Bytes × List (Nat × Nat)) := fun l =>
  if l.closed ∧ 0 < length then .hang
  else
    let r := Streams.readFixSize length l.reads l.input
    match pokes pos buf r.writes with
    | none => .fault
    | some buf' =>
      .ok (r.ret, buf', r.writes.map fun w => ((pos + w.1) % sizeMod, w.2.length))
        { l with input := r.input, reads := r.reads }

/-- The bytes `write` was handed, `none` outside the buffer. -/
def slices (buf : Bytes) : List (Nat × Nat) → Option Bytes
  | [] => some []
  | (offset, len) :: parts =>
    if offset + len ≤ buf.length then
      match slices buf parts with
      | none => none
      | some out => some ((buf.drop offset).take len ++ out)
    else none

/-- `stream->writeFixSize(buf, size)` on a whole buffer. -/
def Link.writeFixSize (buf : Bytes) : Act Nat := fun l =>
  if l.closed ∧ 0 < buf.length then .hang
  else
    let r := Streams.writeFixSize buf.length l.writes
    match slices buf r.parts with
    | none => .fault
    | some out => .ok r.ret { l with output := l.output ++ out, writes := r.writes }

/-- One call `stream->read(buffer, length)`: the bytes it got, `none` for `-1`. -/
def Link.read (length : Nat) : Act (Option Bytes) := fun l =>
  if l.closed then .ok none l
  else match l.reads with
    | [] => .ok (some (l.input.take length)) { l with input := l.input.drop length }
    | .count k :: reads =>
      let len := min k length
      .ok (some (l.input.take len)) { l with input := l.input.drop len, reads := reads }
    | .fail :: reads => .ok none { l with reads := reads }

/-- `stream->close()`. -/
def Link.close : Act Unit := fun l => .ok () { l with closed := true }

end Streams
end Wuchat
