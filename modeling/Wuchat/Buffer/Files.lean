/-
# Byte arrays and files

`writeToFile`, `readFromFile` and `toString` of `bytearray.cpp`.

The length of a chunk in `writeToFile` is the smaller of the block size and what is left, less the
offset in the block.  The offset should come off the block size only: with less than a block
left, from a position inside a block, the chunk is too short or its length is negative.  Then
the offset and what is left change places with every block, neither is ever zero, and the loop
follows the null pointer behind the last block (`fileLoop_swap`).  With a whole block left, or
from the start of a block, the chunks are the blocks (`fileLoop_blocks`).

A file is its bytes.  A write of a negative count puts nothing and makes the stream bad.
-/

import Wuchat.Buffer.Contents
import Wuchat.Buffer.Positional

namespace Wuchat
namespace Buffer

open Foundation Streams

/-- `std::ofstream`: what was written, and `badbit`. -/
structure Ofs where
  bytes : Bytes
  bad : Bool
  deriving DecidableEq, Repr

/-- `ofs.write(s, n)` of the bytes at `s`; `none` when it reads behind them. -/
def Ofs.write (s : Bytes) (n : Int) (ofs : Ofs) : Option Ofs :=
  if ofs.bad then some ofs
  else if n < 0 then some { ofs with bad := true }
  else if n ≤ s.length then some { ofs with bytes := ofs.bytes ++ s.take n.toNat }
  else none

namespace ByteArray

/-- The loop of `writeToFile`. -/
def fileLoop : Nat → Nat → Nat → Option Nat → Ofs → ByteArray → Option Ofs
  | 0, _, _, _, _, _ => none
  | fuel + 1, readSize, pos, cur, ofs, ba =>
    if readSize = 0 then some ofs
    else do
      let diff := pos % ba.baseSize
      let len : Int := ((if ba.baseSize < readSize then ba.baseSize else readSize : Nat) : Int) - diff
      let i ← cur
      let node ← ba.nodes[i]?
      let ofs ← ofs.write (node.drop diff) len
      let cur := if i + 1 < ba.nodes.length then some (i + 1) else none
      fileLoop fuel (readSize - len).toNat (pos + len).toNat cur ofs ba

/-- `writeToFile(name)`: the result and the file, which is `file` before the call.  Every turn of
the loop moves to the next block. -/
def writeToFile (opens : Bool) (file : Bytes) (ba : ByteArray) : Option (Bool × Bytes) :=
  if !opens then some (false, file)
  else do
    let ofs ← fileLoop (ba.nodes.length + 1) ba.getReadSize ba.position ba.cur ⟨[], false⟩ ba
    some (true, ofs.bytes)

/-- The loop of `readFromFile`, on what is left of the file.  A read that gets less than it asks for
has reached the end. -/
def readFileLoop (junk : Nat → Junk) : Nat → Bytes → ByteArray → Option ByteArray
  | 0, _, _ => none
  | fuel + 1, file, ba => do
    let buf := file.take ba.baseSize
    let eof := file.length < ba.baseSize
    let ba' ← ba.write (junk fuel) buf
    if eof then some ba' else readFileLoop junk fuel (file.drop ba.baseSize) ba'

/-- `readFromFile(name)`, with the memory that each `write` finds in new blocks. -/
def readFromFile (opens : Bool) (junk : Nat → Junk) (file : Bytes) (ba : ByteArray) : Option (Bool × ByteArray) :=
  if !opens then some (false, ba)
  else (readFileLoop junk (file.length + 1) file ba).map fun ba' => (true, ba')

/-- `toString()`. -/
def toString (ba : ByteArray) : Option (Except String Bytes) :=
  if ba.getReadSize = 0 then some (.ok []) else ba.readAt ba.getReadSize ba.position

end ByteArray

variable {base n pos : Nat} {ba : ByteArray} {f : Flat} {cur : Option Nat} {ofs : Ofs}

/-- **`toString()`** is what is readable. -/
theorem Simulates.toString (h : Simulates base ba f) (hbase : 0 < base) : ba.toString = some (.ok ba.readable) := by
  have hlen : ba.readable.length = ba.getReadSize := by
    have hsize := h.size_le
    rw [ByteArray.readable, h.contents, List.length_drop, List.length_take, ByteArray.getReadSize, h.size]
    omega
  rw [ByteArray.toString]
  split
  · rename_i hzero
    rw [hzero, List.length_eq_zero_iff] at hlen
    rw [hlen]
  · rename_i hne
    have hpos := h.position_le
    have hrest : ba.getReadSize = f.size - f.position := by rw [ByteArray.getReadSize, h.size, h.position]
    rw [h.readAt_of_block hbase (p := ba.position) (by omega) (Nat.le_refl _) (by rw [h.position]; omega)
      (by rw [h.position])]
    show some (Except.ok (ba.readable.take ba.getReadSize)) = _
    rw [List.take_of_length_le (by omega)]

/-! ### The loop of `writeToFile` -/

/-- **Less than a block left, inside a block:** what is left and the offset change places at every
turn, so the loop never ends. -/
theorem fileLoop_swap (hbase : ba.baseSize = base) : ∀ (fuel : Nat) {r pos : Nat} {cur : Option Nat} {ofs : Ofs},
    0 < r → r < base → 0 < pos % base → ba.fileLoop fuel r pos cur ofs = none
  | 0, _, _, _, _, _, _, _ => rfl
  | fuel + 1, r, pos, cur, ofs, hr, hlt, hpos => by
    have hmod := Nat.mod_lt pos (show 0 < base by omega)
    have hdiv := Nat.div_add_mod pos base
    rw [ByteArray.fileLoop, if_neg (by omega), hbase, if_neg (by omega)]
    have hleft : ((r : Int) - ((r : Int) - ((pos % base : Nat) : Int))).toNat = pos % base := by omega
    have hnext : ((pos : Int) + ((r : Int) - ((pos % base : Nat) : Int))).toNat = base * (pos / base) + r := by omega
    cases cur with
    | none => rfl
    | some i =>
      dsimp only
      rw [hleft, hnext, Option.bind_eq_bind, Option.bind_some]
      cases ba.nodes[i]? with
      | none => rfl
      | some node =>
        rw [Option.bind_eq_bind, Option.bind_some]
        cases ofs.write (node.drop (pos % base)) ((r : Int) - ((pos % base : Nat) : Int)) with
        | none => rfl
        | some ofs' =>
          have hoffset : (base * (pos / base) + r) % base = r := by
            rw [Nat.mul_add_mod, Nat.mod_eq_of_lt hlt]
          exact fileLoop_swap hbase fuel hpos hmod (by rw [hoffset]; exact hr)

/-- A turn whose chunk stays in its block. -/
theorem fileLoop_turn (fuel : Nat) (bytes : Bytes) (diff len : Nat) {i : Nat} {block : Bytes}
    (hbase : ba.baseSize = base)
    (hblock : ba.nodes[i]? = some block) (hsize : block.length = base) (hdiff : diff < base) (hn : 0 < n)
    (hlen : (if base < n then base else n) = diff + len) (hin : diff + len ≤ base) :
    ba.fileLoop (fuel + 1) n (base * i + diff) (some i) ⟨bytes, false⟩ =
      ba.fileLoop fuel (n - len) (base * i + diff + len)
        (if i + 1 < ba.nodes.length then some (i + 1) else none) ⟨bytes ++ (block.drop diff).take len, false⟩ := by
  have hmod : (base * i + diff) % base = diff := by
    rw [Nat.mul_add_mod, Nat.mod_eq_of_lt hdiff]
  have hcount : (((diff + len : Nat) : Int) - ((diff : Nat) : Int)) = ((len : Nat) : Int) := by omega
  have hle : len ≤ n := by
    split at hlen <;> omega
  have hleft : ((n : Int) - ((len : Nat) : Int)).toNat = n - len := by omega
  have hnext : (((base * i + diff : Nat) : Int) + ((len : Nat) : Int)).toNat = base * i + diff + len := by omega
  have hwrite : (⟨bytes, false⟩ : Ofs).write (block.drop diff) ((len : Nat) : Int) =
      some ⟨bytes ++ (block.drop diff).take len, false⟩ := by
    have hfits : (len : Int) ≤ ((block.drop diff).length : Nat) := by
      rw [List.length_drop]
      omega
    rw [Ofs.write, if_neg Bool.false_ne_true, if_neg (by omega), if_pos hfits, Int.toNat_natCast]
  rw [ByteArray.fileLoop, if_neg (by omega), hbase, hmod, hlen]
  dsimp only
  rw [hcount, hleft, hnext, Option.bind_eq_bind, Option.bind_some, hblock, Option.bind_eq_bind,
    Option.bind_some, hwrite, Option.bind_eq_bind, Option.bind_some]

/-- The end of the loop. -/
theorem fileLoop_zero {fuel : Nat} : ba.fileLoop (fuel + 1) 0 pos cur ofs = some ofs := by
  rw [ByteArray.fileLoop, if_pos rfl]

/-- **From the start of a block** the loop writes block after block, and the rest. -/
theorem fileLoop_blocks (hbase : ba.baseSize = base) (hpos : 0 < base) (huni : Uniform base ba.nodes) :
    ∀ (fuel : Nat) {n i : Nat} {bytes : Bytes}, 0 < n → i < ba.nodes.length →
      base * i + n ≤ base * ba.nodes.length → ba.nodes.length + 1 ≤ fuel + i →
      ba.fileLoop fuel n (base * i) (some i) ⟨bytes, false⟩ =
        some ⟨bytes ++ (ba.nodes.flatten.drop (base * i)).take n, false⟩ := by
  intro fuel
  induction fuel with
  | zero =>
    intro n i bytes _ hi _ hfuel
    omega
  | succ fuel ih =>
    intro n i bytes hn hi hroom hfuel
    obtain ⟨block, hblock, hsize⟩ := exists_block huni hi
    rcases Nat.lt_or_ge base n with hmore | hlast
    · have hnext : base * (i + 1) < base * ba.nodes.length := by
        rw [Nat.mul_succ]
        omega
      have hi' : i + 1 < ba.nodes.length := Nat.lt_of_mul_lt_mul_left hnext
      have hturn := fileLoop_turn fuel bytes 0 base hbase hblock hsize hpos hn
        (by rw [if_pos hmore, Nat.zero_add]) (by omega)
      simp only [Nat.add_zero] at hturn
      have hrest := @ih (n - base) (i + 1) (bytes ++ (block.drop 0).take base) (by omega) hi'
        (by rw [Nat.mul_succ]; omega) (by omega)
      rw [Nat.mul_succ] at hrest
      have hcut := huni.take_drop_flatten hblock (p := 0) (n := base) (by omega)
      rw [Nat.add_zero] at hcut
      rw [hturn, if_pos hi', hrest, List.append_assoc, ← hcut, take_drop_append, Nat.add_sub_cancel' (by omega)]
    · have hturn := fileLoop_turn fuel bytes 0 n hbase hblock hsize hpos hn
        (by rw [if_neg (by omega), Nat.zero_add]) (by omega)
      simp only [Nat.add_zero, Nat.sub_self] at hturn
      obtain ⟨k, rfl⟩ : ∃ k, fuel = k + 1 := ⟨fuel - 1, by omega⟩
      have hcut := huni.take_drop_flatten hblock (p := 0) (n := n) (by omega)
      rw [Nat.add_zero] at hcut
      rw [hturn, fileLoop_zero, hcut]

/-- The chunks are the blocks when the position is at the start of a block or a whole block is left. -/
def ByteArray.InBlocks (ba : ByteArray) : Prop :=
  ba.position % ba.baseSize = 0 ∨ ba.baseSize ≤ ba.getReadSize ∨ ba.getReadSize = 0

/-- Whether the part to be written lies in the blocks from the current one can be computed. -/
instance (ba : ByteArray) : Decidable ba.InBlocks := inferInstanceAs (Decidable (_ ∨ _))

/-- **The whole loop**, when the chunks are the blocks. -/
theorem Simulates.fileLoop (h : Simulates base ba f) (hbase : 0 < base) (hin : ba.InBlocks) :
    ba.fileLoop (ba.nodes.length + 1) ba.getReadSize ba.position ba.cur ⟨[], false⟩ = some ⟨ba.readable, false⟩ := by
  have hlen := h.length_bytes
  have hsize := h.size_le
  have hposle := h.position_le
  have hrest : ba.getReadSize = f.size - f.position := by rw [ByteArray.getReadSize, h.size, h.position]
  have hreadable : ba.readable = (ba.nodes.flatten.drop f.position).take ba.getReadSize := by
    rw [← h.take_readable (Nat.le_refl _), List.take_of_length_le]
    rw [ByteArray.readable, h.contents, List.length_drop, List.length_take, h.position, hrest]
    omega
  rw [hreadable]
  rcases Nat.eq_zero_or_pos ba.getReadSize with hzero | hpos
  · rw [hzero, fileLoop_zero, List.take_zero]
  obtain ⟨i, block, hcur, hi, -, -, hplace, hdiff⟩ := h.block hbase (by omega)
  obtain ⟨block, hblock, hblen⟩ := exists_block h.uniform hi
  rw [ByteArray.InBlocks, h.baseSize] at hin
  rw [h.baseSize] at hplace hdiff
  rw [hcur]
  rcases Nat.eq_zero_or_pos (ba.position % base) with haligned | hoff
  · have hstart : ba.position = base * i := by
      rw [h.position]
      omega
    rw [hstart, fileLoop_blocks h.baseSize hbase h.uniform _ hpos hi (by omega) (by omega), List.nil_append,
      ← h.position, hstart]
  · -- the rest of the first block, and then from the start of the next
    have hwhole : base ≤ ba.getReadSize := by omega
    have hchunk : (if base < ba.getReadSize then base else ba.getReadSize) =
        ba.position % base + (base - ba.position % base) := by
      split <;> omega
    have hmore : base * (i + 1) < base * ba.nodes.length := by
      rw [Nat.mul_succ]
      omega
    have hi' : i + 1 < ba.nodes.length := Nat.lt_of_mul_lt_mul_left hmore
    have hturn := fileLoop_turn ba.nodes.length [] _ _ h.baseSize hblock hblen hdiff hpos hchunk
      (by omega)
    have hnext : base * i + ba.position % base + (base - ba.position % base) = base * (i + 1) := by
      rw [Nat.mul_succ]
      omega
    have hstart : ba.position = base * i + ba.position % base := by
      rw [← hplace, h.position]
    rw [hnext, if_pos hi', ← hstart] at hturn
    rw [hturn, fileLoop_blocks h.baseSize hbase h.uniform _ (by omega) hi' (by rw [Nat.mul_succ]; omega) (by omega),
      List.nil_append, ← h.uniform.take_drop_flatten hblock (by omega), ← hnext, take_drop_append, ← hplace,
      Nat.add_sub_cancel' (by omega)]

/-! ### Reading the file back -/

/-- **The loop of `readFromFile`** appends the whole file. -/
theorem Filled.readFileLoop (junk : Nat → Junk) (hbase : 0 < base) : ∀ (fuel : Nat) (file : Bytes) {data : Bytes}
    {ba : ByteArray}, ba.baseSize = base → file.length < fuel → Filled base ba data →
    ∃ ba', ba.readFileLoop junk fuel file = some ba' ∧ Filled base ba' (data ++ file) := by
  intro fuel
  induction fuel with
  | zero =>
    intro file data ba _ hfuel _
    omega
  | succ fuel ih =>
    intro file data ba hsize hfuel h
    obtain ⟨ba₁, hwrite, h₁⟩ := h.write hbase (junk fuel) (file.take base)
    rw [ByteArray.readFileLoop, hsize, Option.bind_eq_bind, hwrite, Option.bind_some]
    split
    · rename_i hend
      refine ⟨ba₁, rfl, ?_⟩
      rwa [List.take_of_length_le (by omega)] at h₁
    · rename_i hmore
      have hsize₁ : ba₁.baseSize = base := by
        obtain ⟨f, hsim, -⟩ := h₁.flat
        exact hsim.baseSize
      obtain ⟨ba', hloop, h'⟩ := ih (file.drop base) hsize₁ (by rw [List.length_drop]; omega) h₁
      refine ⟨ba', hloop, ?_⟩
      rwa [List.append_assoc, List.take_append_drop] at h'

/-- **A file read into a fresh array** is what `toString()` gives from the start. -/
theorem readFromFile_toString (hbase : 1 ≤ base) (junk₀ : Junk) (junk : Nat → Junk) (file : Bytes) :
    ∃ ba₁ ba₂, (ByteArray.new junk₀ base).readFromFile true junk file = some (true, ba₁) ∧
      ba₁.setPosition 0 = some (.ok (), ba₂) ∧ ba₂.toString = some (.ok file) := by
  obtain ⟨ba₁, hloop, h₁⟩ :=
    Filled.readFileLoop junk hbase (file.length + 1) file rfl (by omega) (filled_new hbase junk₀)
  rw [List.nil_append] at h₁
  obtain ⟨ba₂, hset, h₂⟩ := h₁.setPosition_zero hbase
  refine ⟨ba₁, ba₂, ?_, hset, ?_⟩
  · rw [ByteArray.readFromFile, hloop]
    rfl
  · obtain ⟨f, hsim, -, hrest, -⟩ := h₂.flat
    rw [hsim.toString hbase, ByteArray.readable, hsim.contents, hsim.position, hrest]

/-- **What `writeToFile` is for:** the file gets the readable bytes, and an array of any block size
into which it is read has the same `toString()`. -/
def ByteArray.FilesOut (ba : ByteArray) (file : Bytes) : Prop :=
  ∃ out, ba.writeToFile true file = some (true, out) ∧ out = ba.readable ∧
    ∀ (base : Nat) (junk₀ : Junk) (junk : Nat → Junk), 1 ≤ base →
      ∃ ba₁ ba₂, (ByteArray.new junk₀ base).readFromFile true junk out = some (true, ba₁) ∧
        ba₁.setPosition 0 = some (.ok (), ba₂) ∧ ba₂.toString = ba.toString

/-- **Exactly when a file gets the readable bytes and brings them back:** when the position is at the
start of a block, or at least a block is readable, or nothing is.  Else `writeToFile` follows a
null pointer. -/
theorem filesOut_iff (base : Nat) (hbase : 1 ≤ base) (ba : ByteArray) (h : Reachable base ba) (file : Bytes) :
    ba.FilesOut file ↔ ba.InBlocks := by
  obtain ⟨f, hf⟩ := h.simulates hbase
  constructor
  · rintro ⟨out, hwrite, -⟩
    by_contra hnot
    rw [ByteArray.InBlocks, hf.baseSize, not_or, not_or] at hnot
    have hswap : ba.fileLoop (ba.nodes.length + 1) ba.getReadSize ba.position ba.cur ⟨[], false⟩ = none :=
      fileLoop_swap hf.baseSize _ (by omega) (by omega) (by omega)
    rw [ByteArray.writeToFile, hswap] at hwrite
    cases hwrite
  · intro hin
    refine ⟨ba.readable, ?_, rfl, fun base' junk₀ junk hbase' => ?_⟩
    · rw [ByteArray.writeToFile, hf.fileLoop hbase hin]
      rfl
    · rw [hf.toString hbase]
      exact readFromFile_toString hbase' junk₀ junk ba.readable

/-- From the second of its five bytes on, a block of four is left. -/
theorem filesOut_iff_helloArray :
    ByteArray.FilesOut { helloArray with position := 1, cur := some 0 } [] ↔
      ByteArray.InBlocks { helloArray with position := 1, cur := some 0 } :=
  filesOut_iff 4 (by decide) _ (.setPosition 1 reachable_helloArray rfl) []

/-- **From the third byte of `hello` on, `writeToFile` has no result:** three bytes are left at the
offset two; it writes one, and then one of a negative number. -/
theorem writeToFile_inside :
    Reachable 4 { helloArray with position := 2, cur := some 0 } ∧
    ByteArray.writeToFile true [] { helloArray with position := 2, cur := some 0 } = none ∧
    ¬ ByteArray.FilesOut { helloArray with position := 2, cur := some 0 } [] := by
  have hnone : ByteArray.writeToFile true [] { helloArray with position := 2, cur := some 0 } = none := by
    decide
  refine ⟨.setPosition 2 reachable_helloArray rfl, hnone, ?_⟩
  rintro ⟨out, hwrite, -⟩
  rw [hnone] at hwrite
  cases hwrite

end Buffer
end Wuchat
