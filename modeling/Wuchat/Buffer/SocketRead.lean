/-
# Reading a socket into a byte array

`SocketStream::read(ba, length)`: `getWriteBuffers` adds blocks until there is room for
`length` bytes and hands out the parts of the blocks behind the position, `recvmsg` fills
them, and the position moves behind what was received.

The answer of the socket is a `size_t` here too, and the test `rt > 0` takes the `-1` of an
error for a count: `setPosition` is called with the position less one, modulo `2^64`.  So an
error moves the position back by one, except at the start of the array, where
`setPosition` throws (`socketRead_fail`).

`&ios[0]` of an empty vector is taken as a pointer that is not followed.
-/

import Wuchat.Buffer.Parts
import Wuchat.Streams.FixSize

namespace Wuchat
namespace Buffer

open Foundation Streams

/-- What `recvmsg` answers: `-1`, or the bytes it received (none when the peer has closed). -/
inductive Recv
  | fail
  | data (bs : Bytes)
  deriving DecidableEq, Repr

/-- The answer as a `size_t`. -/
def Recv.size : Recv → Nat
  | .fail => sizeMod - 1
  | .data bs => bs.length

/-- The bytes it received. -/
def Recv.bytes : Recv → Bytes
  | .fail => []
  | .data bs => bs

namespace ByteArray

/-- `if (rt > 0) ba->setPosition(ba->getPosition() + rt)`, and the result. -/
def received (rt : Nat) (ba : ByteArray) : Option (Except String Nat × ByteArray) :=
  if 0 < rt then (ba.setPosition ((ba.position + rt) % sizeMod)).map fun r => (r.1.map fun _ => rt, r.2)
  else some (.ok rt, ba)

/-- `SocketStream::read(ba, length)`, with what the socket answers. -/
def socketRead (connected : Bool) (junk : Junk) (answer : Recv) (length : Nat) (ba : ByteArray) :
    Option (Except String Nat × ByteArray) :=
  if ¬ connected then some (.ok Recv.fail.size, ba)
  else do
    let (ios, ba) ← ba.getWriteBuffers junk length
    let ba ← scatter ios answer.bytes ba
    ba.received answer.size

end ByteArray

variable {base n : Nat} {ba : ByteArray} {f : Flat}

/-- What a read with bytes leaves: the position moved by their number. -/
theorem received_of_pos {rt : Nat} (hrt : 0 < rt) :
    ba.received rt = (ba.setPosition ((ba.position + rt) % sizeMod)).map fun r => (r.1.map fun _ => rt, r.2) :=
  if_pos hrt

/-- A read from the socket is a scatter of the answer's bytes, and the move. -/
theorem socketRead_eq {ba₁ : ByteArray} {ios : List IoVec} {junk : Junk} {answer : Recv}
    (h : ba.getWriteBuffers junk n = some (ios, ba₁)) :
    ba.socketRead true junk answer n = (ba₁.scatter ios answer.bytes).bind fun ba => ba.received answer.size := by
  rw [ByteArray.socketRead, if_neg (by simp), h]
  rfl

/-- **After an error** the position is one less, or `setPosition` throws at the start of the array. -/
theorem Simulates.socketRead_fail (h : Simulates base ba f) (hbase : 0 < base) (junk : Junk)
    (hpos : ba.position < sizeMod) (hcap : (ba.addCapacity junk n).capacity < sizeMod - 1) :
    ∃ r ba', ba.socketRead true junk .fail n = some (r, ba') ∧ ba'.size = ba.size ∧
      ba'.position = ba.position - 1 := by
  obtain ⟨ios, more, hbuffers, h₁, -, -⟩ := h.getWriteBuffers hbase junk (n := n)
  have hposle := h.position_le
  have hsizele := h.size_le
  generalize ba.addCapacity junk n = ba₁ at hbuffers h₁ hcap
  have hsame : ba₁.position = ba.position := by rw [h₁.position, h.position]
  have hsize : Recv.fail.size = sizeMod - 1 := rfl
  rw [socketRead_eq hbuffers, Recv.bytes, scatter_nil, Option.bind_some, hsize, received_of_pos (by decide)]
  rcases Nat.eq_zero_or_pos ba.position with hzero | hback
  · -- the new position is `2^64 - 1`, which no array holds
    have hnew : (ba₁.position + (sizeMod - 1)) % sizeMod = sizeMod - 1 := by
      rw [hsame, hzero, Nat.zero_add, Nat.mod_eq_of_lt (by omega)]
    rw [hnew, ByteArray.setPosition, if_pos hcap, Option.map_some]
    refine ⟨_, ba₁, rfl, ?_, ?_⟩
    · rw [h₁.size, h.size]
    · rw [hsame, hzero]
  · have hnew : (ba₁.position + (sizeMod - 1)) % sizeMod = ba.position - 1 := by
      have hsum : ba.position + (sizeMod - 1) = ba.position - 1 + sizeMod := by omega
      rw [hsame, hsum, Nat.add_mod_right, Nat.mod_eq_of_lt (by omega)]
    obtain ⟨r, ba', hset, -, h', -⟩ := h₁.setPosition hbase (ba.position - 1)
    have hbytes := h₁.size_le
    rw [hnew, hset, Option.map_some]
    rw [h.position, Flat.setPosition] at h'
    dsimp only at hbytes h'
    rw [if_neg (by omega)] at h'
    refine ⟨_, ba', rfl, ?_, ?_⟩
    · rw [h'.size, h.size]
      dsimp only
      omega
    · rw [h'.position, h.position]

/-- **Exactly when the loops and the read keep what they promise on an error.**  `readFixSize` and
`writeFixSize` do when no `-1` comes before the counts add up or the stream is closed;
`SocketStream::read(ba, n)` leaves the array's position and size after a `-1` when the position
was the start of the array. -/
theorem fixSize_socketRead_iff (length : Nat) (hlength : length < sizeMod) (answers : List Io)
    (hans : (fixSizeRun length answers).Answered) (base : Nat) (hbase : 1 ≤ base) (ba : ByteArray) (f : Flat)
    (h : Simulates base ba f) (junk : Junk) (n : Nat) (hpos : ba.position < sizeMod)
    (hcap : (ba.addCapacity junk n).capacity < sizeMod - 1) :
    (FixSizeContract length answers ↔ ¬ ErrorComes length answers) ∧
    ((∃ r ba', ba.socketRead true junk .fail n = some (r, ba') ∧ ba'.position = ba.position ∧ ba'.size = ba.size) ↔
      ba.position = 0) := by
  refine ⟨fixSizeContract_iff hlength hans, ?_⟩
  obtain ⟨r, ba', hread, hsize', hpos'⟩ := h.socketRead_fail hbase junk hpos hcap
  constructor
  · rintro ⟨r₁, ba₁, hread₁, hpos₁, -⟩
    rw [hread] at hread₁
    obtain ⟨-, rfl⟩ := Prod.mk.inj (Option.some.inj hread₁)
    omega
  · intro hzero
    exact ⟨r, ba', hread, by omega, hsize'⟩

/-- An array of blocks of four bytes with one byte written. -/
def oneByte : ByteArray := ⟨4, 1, 4, 1, [[7, 0, 0, 0]], some 0⟩

/-- The array of the example. -/
theorem simulates_oneByte : Simulates 4 oneByte ⟨[7, 0, 0, 0], 1, 1⟩ where
  baseSize := rfl
  uniform := by simp [Uniform, oneByte]
  nonempty := List.cons_ne_nil _ _
  bytes := rfl
  capacity := rfl
  position := rfl
  size := rfl
  position_le := Nat.le_refl _
  size_le := by decide
  cur := rfl

/-- `readFixSize(buffer, 2)` with an error first asks for three bytes before the buffer, and then returns two;
and an error takes the last byte of the array away. -/
theorem fixSize_socketRead_error :
    fixSizeRun 2 [.fail, .count 3] = ⟨[⟨0, 2, .fail⟩, ⟨sizeMod - 1, 3, .count 3⟩], some 2⟩ ∧
    (fixSizeRun 2 [.fail, .count 3]).Answered ∧ ¬ FixSizeContract 2 [.fail, .count 3] ∧
    (oneByte.socketRead true (fun _ _ => 0) .fail 2).map (·.2) = some { oneByte with position := 0 } := by
  have hans : (fixSizeRun 2 [.fail, .count 3]).Answered := by
    intro c hc k hk
    have hcalls : (fixSizeRun 2 [.fail, .count 3]).calls = [⟨0, 2, .fail⟩, ⟨sizeMod - 1, 3, .count 3⟩] := by decide
    rw [hcalls] at hc
    rcases List.mem_cons.1 hc with rfl | hc
    · cases hk
    · rw [List.mem_singleton.1 hc] at hk ⊢
      cases hk
      exact Nat.le_refl 3
  exact ⟨by decide, hans, not_contract_of_errorComes (by decide) hans (errorComes_fail (by decide)),
    by decide +kernel⟩

/-- Two counts that add up, and a read on an array whose position is not its start. -/
theorem fixSize_socketRead_iff_oneByte :
    (FixSizeContract 3 [.count 1, .count 2] ↔ ¬ ErrorComes 3 [.count 1, .count 2]) ∧
    ((∃ r ba', oneByte.socketRead true (fun _ _ => 0) .fail 2 = some (r, ba') ∧
        ba'.position = oneByte.position ∧ ba'.size = oneByte.size) ↔ oneByte.position = 0) := by
  refine fixSize_socketRead_iff 3 (by decide) _ ?_ 4 (by decide) oneByte _ simulates_oneByte _ 2 (by decide) (by decide)
  intro c hc k hk
  have hcalls : (fixSizeRun 3 [.count 1, .count 2]).calls = [⟨0, 3, .count 1⟩, ⟨1, 2, .count 2⟩] := by decide
  rw [hcalls] at hc
  rcases List.mem_cons.1 hc with rfl | hc
  · cases hk
    decide
  · rw [List.mem_singleton.1 hc] at hk ⊢
    cases hk
    exact Nat.le_refl 2

end Buffer
end Wuchat
