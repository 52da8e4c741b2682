/-
# Parts of blocks

`getReadBuffers` and `getWriteBuffers` of `bytearray.cpp`: the bytes behind the position,
handed out as parts of the blocks for a call that reads or fills them itself.  The three
loops that walk the blocks are the same text.

`Covers` says what the parts are: the bytes from a position on, cut only at the ends of the
blocks.  So reading them is reading these bytes (`Covers.gather`), and filling them is
replacing these bytes (`Covers.scatter`).  To fill the parts of `getWriteBuffers` and move the
position is to `write` (`parts_agree`).

`Reachable` are the arrays that calls lead to, this way of filling them among the calls;
they are exactly those that simulate a flat buffer (`reachable_iff`).
-/

import Wuchat.Buffer.Flat

namespace Wuchat
namespace Buffer

open Foundation Streams

/-- `iovec`: a part of a block. -/
structure IoVec where
  node : Nat
  offset : Nat
  len : Nat
  deriving DecidableEq, Repr

namespace ByteArray

/-- The loop of `getWriteBuffers`, from the block `cur` on. -/
def writeBuffersLoop : Nat → Option Nat → Nat → Nat → Nat → ByteArray → Option (List IoVec)
  | 0, _, _, _, _, _ => none
  | fuel + 1, cur, npos, ncap, len, ba => do
    if len = 0 then some []
    else
      let i ← cur
      if len ≤ ncap then some [⟨i, npos, len⟩]
      else
        let next := if i + 1 < ba.nodes.length then some (i + 1) else none
        let node ← next.bind (ba.nodes[·]?)
        let ios ← writeBuffersLoop fuel next 0 node.length (len - ncap) ba
        some (⟨i, npos, ncap⟩ :: ios)

/-- `getWriteBuffers(buffers, len)`. -/
def getWriteBuffers (junk : Junk) (len : Nat) (ba : ByteArray) : Option (List IoVec × ByteArray) :=
  if len = 0 then some ([], ba)
  else do
    let ba := ba.addCapacity junk len
    let npos := ba.position % ba.baseSize
    let node ← ba.node
    let ios ← writeBuffersLoop ba.nodes.length ba.cur npos (node.length - npos) len ba
    some (ios, ba)

/-- `getReadBuffers(buffers, len)`: the parts it appends and what it returns.  It assigns to no
member. -/
def getReadBuffers (len : Nat) (ba : ByteArray) : Option (List IoVec × Nat) :=
  let len := if ba.getReadSize < len then ba.getReadSize else len
  if len = 0 then some ([], 0)
  else do
    let npos := ba.position % ba.baseSize
    let node ← ba.node
    let ios ← writeBuffersLoop ba.nodes.length ba.cur npos (node.length - npos) len ba
    some (ios, len)

/-- `recvmsg` puts what it received into the parts. -/
def scatter : List IoVec → Bytes → ByteArray → Option ByteArray
  | _, [], ba => some ba
  | [], _ :: _, _ => none
  | io :: ios, bs, ba => do
    let node ← ba.nodes[io.node]?
    let node' ← poke node io.offset (bs.take io.len)
    scatter ios (bs.drop io.len) { ba with nodes := ba.nodes.set io.node node' }

/-- The bytes parts denote; `none` when one is not inside its block. -/
def gather : List IoVec → ByteArray → Option Bytes
  | [], _ => some []
  | io :: ios, ba => do
    let node ← ba.nodes[io.node]?
    let rest ← gather ios ba
    if io.offset + io.len ≤ node.length then some ((node.drop io.offset).take io.len ++ rest) else none

/-- The contents below `m_size`. -/
def contents (ba : ByteArray) : Bytes := ba.nodes.flatten.take ba.size

/-- The readable bytes, `m_position .. m_size - 1`. -/
def readable (ba : ByteArray) : Bytes := ba.contents.drop ba.position

end ByteArray

/-- **The parts are the bytes from `pos` on**, `len` of them.  None is empty, each lies in its
block, and each but the last goes to the end of it. -/
inductive Covers (base count : Nat) : Nat → List IoVec → Nat → Prop
  | nil (pos : Nat) : Covers base count pos [] 0
  | cons {io : IoVec} {ios : List IoVec} {pos len : Nat} : io.node < count →
      pos = base * io.node + io.offset → 0 < io.len → io.offset + io.len ≤ base →
      (ios = [] ∨ io.offset + io.len = base) → Covers base count (pos + io.len) ios len →
      Covers base count pos (io :: ios) (io.len + len)

variable {base n pos len : Nat} {ba ba' : ByteArray} {f : Flat} {ios : List IoVec}

/-- One part that stays in its block. -/
theorem Covers.single {count i npos : Nat} (hi : i < count) (hn : 0 < n) (hin : npos + n ≤ base) :
    Covers base count (base * i + npos) [⟨i, npos, n⟩] n := by
  have h : Covers base count (base * i + npos) [⟨i, npos, n⟩] (n + 0) :=
    .cons hi rfl hn hin (.inl rfl) (.nil _)
  exact h

/-- No part is empty, and each lies in its block. -/
theorem Covers.inside (huni : Uniform base ba.nodes) (h : Covers base ba.nodes.length pos ios len) :
    ∀ io ∈ ios, 0 < io.len ∧ ∃ node, ba.nodes[io.node]? = some node ∧ io.offset + io.len ≤ node.length := by
  induction h with
  | nil => exact fun io hio => absurd hio List.not_mem_nil
  | cons hnode _ hlen hin _ _ ih =>
    intro io hio
    rcases List.mem_cons.1 hio with rfl | hio
    · obtain ⟨node, hget, hsize⟩ := exists_block huni hnode
      exact ⟨hlen, node, hget, by omega⟩
    · exact ih io hio

/-- **Reading the parts** is reading the bytes. -/
theorem Covers.gather (huni : Uniform base ba.nodes) (h : Covers base ba.nodes.length pos ios len) :
    ba.gather ios = some ((ba.nodes.flatten.drop pos).take len) := by
  induction h with
  | nil =>
    rw [List.take_zero]
    rfl
  | @cons io ios pos len hnode hpos hlen hin _ _ ih =>
    obtain ⟨node, hget, hsize⟩ := exists_block huni hnode
    rw [ByteArray.gather, hget, ih, Option.bind_eq_bind, Option.bind_some, Option.bind_some, if_pos (by omega),
      ← huni.take_drop_flatten hget hin, ← hpos, take_drop_append]

/-- **Filling the parts** in order is replacing the bytes. -/
theorem Covers.scatter {count : Nat} (h : Covers base count pos ios len) :
    ∀ {ba : ByteArray} (d : Bytes), Uniform base ba.nodes → ba.nodes.length = count →
      pos + len ≤ base * count → d.length ≤ len →
      ∃ nodes, ba.scatter ios d = some { ba with nodes } ∧ Uniform base nodes ∧ nodes.length = count ∧
        nodes.flatten = splice ba.nodes.flatten pos d := by
  induction h with
  | nil pos =>
    intro ba d huni hcount _ hd
    obtain rfl := List.length_eq_zero_iff.1 (Nat.le_zero.1 hd)
    exact ⟨ba.nodes, rfl, huni, hcount, (splice_nil _ _).symm⟩
  | @cons io ios pos len hnode hpos hlen hin _ _ ih =>
    intro ba d huni hcount hroom hd
    cases d with
    | nil => exact ⟨ba.nodes, rfl, huni, hcount, (splice_nil _ _).symm⟩
    | cons b bs =>
      generalize hdef : b :: bs = d at hd
      obtain ⟨node, hget, hsize⟩ := exists_block huni (hcount ▸ hnode)
      have htake : (d.take io.len).length ≤ io.len := List.length_take_le _ _
      have hpoke : poke node io.offset (d.take io.len) = some (splice node io.offset (d.take io.len)) :=
        if_pos (by omega)
      have hset : Uniform base (ba.nodes.set io.node (splice node io.offset (d.take io.len))) :=
        huni.set (by rw [length_splice (by omega), hsize])
      have hflat := huni.flatten_set hget (show io.offset + (d.take io.len).length ≤ base by omega)
      obtain ⟨nodes, hrest, huni', hlen', hflat'⟩ :=
        @ih { ba with nodes := ba.nodes.set io.node (splice node io.offset (d.take io.len)) }
          (d.drop io.len) hset (by rw [List.length_set, hcount]) (by omega) (by rw [List.length_drop]; omega)
      refine ⟨nodes, ?_, huni', hlen', ?_⟩
      · rw [← hdef, ByteArray.scatter, hdef, hget, Option.bind_eq_bind, Option.bind_some, hpoke,
          Option.bind_some, hrest]
        exact fun h => List.cons_ne_nil _ _ h
      · rw [hflat', hflat, ← hpos]
        rcases Nat.lt_or_ge d.length io.len with hshort | hfull
        · rw [List.drop_of_length_le (by omega), splice_nil, List.take_of_length_le (by omega)]
        · have htaken : (d.take io.len).length = io.len := by
            rw [List.length_take]
            omega
          have hsplice := @splice_splice _ ba.nodes.flatten (d.take io.len) (d.drop io.len) pos
            (by rw [huni.length_flatten, hcount]; omega)
          rwa [htaken, List.take_append_drop] at hsplice

/-- No bytes are scattered. -/
theorem scatter_nil (ios : List IoVec) : ba.scatter ios [] = some ba := by
  cases ios <;> rfl

/-- **The loop of the three calls** covers the bytes from its place on, while there are blocks. -/
theorem writeBuffersLoop_covers (huni : Uniform base ba.nodes) (hbase : 0 < base) :
    ∀ (fuel : Nat) {npos i len : Nat}, i < ba.nodes.length → npos < base →
      base * i + npos + len ≤ base * ba.nodes.length → ba.nodes.length ≤ fuel + i →
      ∃ ios, ba.writeBuffersLoop fuel (some i) npos (base - npos) len = some ios ∧
        Covers base ba.nodes.length (base * i + npos) ios len := by
  intro fuel
  induction fuel with
  | zero =>
    intro npos i len hi _ _ hfuel
    omega
  | succ fuel ih =>
    intro npos i len hi hnpos hroom hfuel
    rw [ByteArray.writeBuffersLoop]
    split
    · rename_i hzero
      rw [hzero]
      exact ⟨[], rfl, .nil _⟩
    rename_i hzero
    rw [Option.bind_eq_bind, Option.bind_some]
    split
    · rename_i hin
      exact ⟨_, rfl, .single hi (by omega) (by omega)⟩
    · rename_i hout
      have hmore : base * (i + 1) < base * ba.nodes.length := by
        rw [Nat.mul_succ]
        omega
      have hi' : i + 1 < ba.nodes.length := Nat.lt_of_mul_lt_mul_left hmore
      obtain ⟨block, hblock, hlen⟩ := exists_block huni hi'
      obtain ⟨ios, hios, hcovers⟩ := @ih 0 (i + 1) (len - (base - npos)) hi' hbase
        (by rw [Nat.mul_succ]; omega) (by omega)
      rw [Nat.sub_zero] at hios
      refine ⟨⟨i, npos, base - npos⟩ :: ios, ?_, ?_⟩
      · simp only [if_pos hi', Option.bind_some, Option.bind_eq_bind, hblock, hlen, hios]
      · have hsum : len = base - npos + (len - (base - npos)) := by omega
        have hnext : base * (i + 1) + 0 = base * i + npos + (base - npos) := by
          rw [Nat.mul_succ]
          omega
        rw [hsum]
        rw [hnext] at hcovers
        refine .cons hi rfl ?_ ?_ (.inr ?_) hcovers <;> dsimp only <;> omega

/-- The parts behind the position, while there is room. -/
theorem Simulates.covers (h : Simulates base ba f) (hbase : 0 < base) (hn : 0 < n)
    (hroom : f.position + n ≤ base * ba.nodes.length) :
    ∃ node ios, ba.node = some node ∧
      ba.writeBuffersLoop ba.nodes.length ba.cur (ba.position % ba.baseSize)
        (node.length - ba.position % ba.baseSize) n = some ios ∧
      Covers base ba.nodes.length f.position ios n := by
  obtain ⟨i, block, hcur, hi, hnode, hlen, hplace, hnpos⟩ := h.block hbase (by omega)
  obtain ⟨ios, hios, hcovers⟩ := writeBuffersLoop_covers h.uniform hbase ba.nodes.length hi hnpos
    (show base * i + ba.position % ba.baseSize + n ≤ base * ba.nodes.length by omega) (by omega)
  refine ⟨block, ios, hnode, ?_, ?_⟩
  · rw [hcur, hlen, hios]
  · rwa [hplace]

/-- **`getWriteBuffers`** adds blocks and hands out the parts behind the position. -/
theorem Simulates.getWriteBuffers (h : Simulates base ba f) (hbase : 0 < base) (junk : Junk) :
    ∃ ios more, ba.getWriteBuffers junk n = some (ios, ba.addCapacity junk n) ∧
      Simulates base (ba.addCapacity junk n) { f with bytes := f.bytes ++ more } ∧
      f.position + n ≤ base * (ba.addCapacity junk n).nodes.length ∧
      Covers base (ba.addCapacity junk n).nodes.length f.position ios n := by
  rw [ByteArray.getWriteBuffers]
  split
  · rename_i hzero
    have hadd : ba.addCapacity junk n = ba := by
      rw [ByteArray.addCapacity, if_pos (by omega)]
    have hlen := h.length_bytes
    have hpos := h.position_le
    have hsize := h.size_le
    rw [hadd, hzero]
    exact ⟨[], [], rfl, by rwa [List.append_nil], by omega, .nil _⟩
  · rename_i hn
    obtain ⟨h₁, hroom⟩ := h.addCapacity hbase junk (n := n) (by omega)
    generalize ba.addCapacity junk n = ba₁ at h₁ hroom
    obtain ⟨node, ios, hnode, hios, hcovers⟩ := h₁.covers hbase (n := n) (by omega) hroom
    refine ⟨ios, _, ?_, h₁, hroom, hcovers⟩
    simp only [hnode, Option.bind_eq_bind, Option.bind_some, hios]

/-- **`getReadBuffers`** hands out the parts of the readable bytes, and says how many they are. -/
theorem Simulates.getReadBuffers (h : Simulates base ba f) (hbase : 0 < base) (len : Nat) :
    ∃ ios, ba.getReadBuffers len = some (ios, min len ba.getReadSize) ∧
      Covers base ba.nodes.length f.position ios (min len ba.getReadSize) := by
  have hmin : (if ba.getReadSize < len then ba.getReadSize else len) = min len ba.getReadSize := by
    split <;> omega
  rw [ByteArray.getReadBuffers, hmin]
  dsimp only
  split
  · rename_i hzero
    rw [hzero]
    exact ⟨[], rfl, .nil _⟩
  · rename_i hn
    have hlen := h.length_bytes
    have hsize := h.size_le
    have hroom : f.position + min len ba.getReadSize ≤ base * ba.nodes.length := by
      rw [ByteArray.getReadSize, h.size, h.position] at hn ⊢
      omega
    obtain ⟨node, ios, hnode, hios, hcovers⟩ := h.covers hbase (Nat.pos_of_ne_zero hn) hroom
    refine ⟨ios, ?_, hcovers⟩
    simp only [hnode, Option.bind_eq_bind, Option.bind_some, hios]

/-- The array with the parts filled. -/
theorem Simulates.scatter (h : Simulates base ba f) (hcovers : Covers base ba.nodes.length f.position ios n)
    (hroom : f.position + n ≤ base * ba.nodes.length) {d : Bytes} (hd : d.length ≤ n) :
    ∃ ba', ba.scatter ios d = some ba' ∧ ba'.position = ba.position ∧
      Simulates base ba' { f with bytes := splice f.bytes f.position d } := by
  obtain ⟨nodes, hscatter, huni, hlen, hflat⟩ := hcovers.scatter d h.uniform rfl hroom hd
  have hbytes := h.length_bytes
  refine ⟨_, hscatter, rfl, h.baseSize, huni, ?_, ?_, ?_, h.position, h.size, h.position_le, ?_, ?_⟩
  · have hpos := List.length_pos_iff.2 h.nonempty
    rw [← hlen] at hpos
    exact List.length_pos_iff.1 hpos
  · rw [hflat, h.bytes]
  · rw [hlen]
    exact h.capacity
  · dsimp only
    rw [length_splice (by omega)]
    exact h.size_le
  · rw [hlen]
    exact h.cur

/-! ### Reachable arrays -/

/-- The arrays that calls lead to from a new one with blocks of `base` bytes.  `fill` is what a
call does that fills the parts of `getWriteBuffers`, in order, as far as its bytes go. -/
inductive Reachable (base : Nat) : ByteArray → Prop
  | new (junk : Junk) : Reachable base (.new junk base)
  | write {ba ba' : ByteArray} (junk : Junk) (data : Bytes) : Reachable base ba →
      ba.write junk data = some ba' → Reachable base ba'
  | read {ba ba' : ByteArray} {r : Except String Bytes} (n : Nat) : Reachable base ba →
      ba.read n = some (r, ba') → Reachable base ba'
  | setPosition {ba ba' : ByteArray} {r : Except String Unit} (pos : Nat) : Reachable base ba →
      ba.setPosition pos = some (r, ba') → Reachable base ba'
  | clear {ba ba' : ByteArray} : Reachable base ba → ba.clear = some ba' → Reachable base ba'
  | fill {ba ba₁ ba' : ByteArray} {ios : List IoVec} (junk : Junk) (len : Nat) (bs : Bytes) :
      Reachable base ba → ba.getWriteBuffers junk len = some (ios, ba₁) → bs.length ≤ len →
      ba₁.scatter ios bs = some ba' → Reachable base ba'

/-- A read of no bytes changes nothing, if it has a result. -/
theorem read_zero {r : Except String Bytes} (h : ba.read 0 = some (r, ba')) : ba' = ba := by
  rw [ByteArray.read, if_neg (Nat.not_lt_zero _)] at h
  obtain ⟨node, -, h⟩ := Option.bind_eq_some_iff.1 h
  obtain ⟨⟨bytes, ba₁⟩, hloop, h⟩ := Option.bind_eq_some_iff.1 h
  obtain ⟨-, rfl⟩ := Prod.mk.inj (Option.some.inj h)
  cases hfuel : ba.nodes.length with
  | zero =>
    rw [hfuel] at hloop
    cases hloop
  | succ fuel =>
    rw [hfuel, ByteArray.readLoop, if_pos rfl] at hloop
    exact (Prod.mk.inj (Option.some.inj hloop)).2.symm

/-- **The calls keep the block invariant.** -/
theorem Reachable.simulates (hbase : 0 < base) (h : Reachable base ba) : ∃ f, Simulates base ba f := by
  induction h with
  | new junk => exact ⟨_, simulates_new junk hbase⟩
  | write junk data _ heq ih =>
    obtain ⟨f, hf⟩ := ih
    obtain ⟨ba', hwrite, h'⟩ := hf.write hbase junk data
    obtain rfl := Option.some.inj (hwrite.symm.trans heq)
    exact ⟨_, h'⟩
  | read n _ heq ih =>
    obtain ⟨f, hf⟩ := ih
    rcases Nat.eq_zero_or_pos n with rfl | hn
    · rw [read_zero heq]
      exact ⟨f, hf⟩
    · obtain ⟨ba', hread, h', -⟩ := hf.read hbase hn
      obtain ⟨-, rfl⟩ := Prod.mk.inj (Option.some.inj (hread.symm.trans heq))
      exact ⟨_, h'⟩
  | setPosition pos _ heq ih =>
    obtain ⟨f, hf⟩ := ih
    obtain ⟨r, ba', hset, -, h', -⟩ := hf.setPosition hbase pos
    obtain ⟨-, rfl⟩ := Prod.mk.inj (Option.some.inj (hset.symm.trans heq))
    exact ⟨_, h'⟩
  | clear _ heq ih =>
    obtain ⟨f, hf⟩ := ih
    obtain ⟨ba', hclear, h'⟩ := hf.clear hbase
    obtain rfl := Option.some.inj (hclear.symm.trans heq)
    exact ⟨_, h'⟩
  | fill junk len bs _ hbuffers hle hscatter ih =>
    obtain ⟨f, hf⟩ := ih
    obtain ⟨ios, more, hget, h₁, hroom, hcovers⟩ := hf.getWriteBuffers hbase junk (n := len)
    obtain ⟨rfl, rfl⟩ := Prod.mk.inj (Option.some.inj (hget.symm.trans hbuffers))
    obtain ⟨ba', hfill, -, h'⟩ := h₁.scatter hcovers hroom hle
    obtain rfl := Option.some.inj (hfill.symm.trans hscatter)
    exact ⟨_, h'⟩

/-- An array is determined by the flat buffer it simulates. -/
theorem Simulates.ext (hbase : 0 < base) (h : Simulates base ba f) (h' : Simulates base ba' f) : ba = ba' := by
  have hnodes : ba.nodes = ba'.nodes := h.uniform.flatten_inj hbase h'.uniform (h.bytes.trans h'.bytes.symm)
  have hcur : ba.cur = ba'.cur := by rw [h.cur, h'.cur, hnodes, h.position, h'.position]
  have hcap : ba.capacity = ba'.capacity := by rw [h.capacity, h'.capacity, hnodes]
  cases ba
  cases ba'
  simp only [ByteArray.mk.injEq]
  exact ⟨h.baseSize.trans h'.baseSize.symm, h.position.trans h'.position.symm, hcap,
    h.size.trans h'.size.symm, hnodes, hcur⟩

/-- The position moved within the capacity. -/
theorem Simulates.setPosition_of_le (h : Simulates base ba f) (hbase : 0 < base) (pos : Nat)
    (hle : pos ≤ f.bytes.length) :
    ∃ ba', ba.setPosition pos = some (.ok (), ba') ∧
      Simulates base ba' { f with position := pos, size := max f.size pos } := by
  obtain ⟨r, ba', hset, hr, h', -⟩ := h.setPosition hbase pos
  rw [Flat.setPosition, if_neg (by omega)] at hr h'
  cases r with
  | error e => cases hr
  | ok u => exact ⟨ba', hset, h'⟩

/-- The blocks of a new array that is filled with whole blocks. -/
theorem missing_new {count : Nat} (hbase : 0 < base) (hcount : 0 < count) {bytes : Bytes}
    (hbytes : bytes.length = base) :
    (⟨bytes, 0, 0⟩ : Flat).missing base (base * count) = count - 1 := by
  obtain ⟨k, rfl⟩ : ∃ k, count = k + 1 := ⟨count - 1, by omega⟩
  have hsum : base * (k + 1) - (bytes.length - 0) + base - 1 = base - 1 + base * k := by
    rw [Nat.mul_succ, hbytes]
    omega
  rw [Flat.missing, hsum, Nat.add_mul_div_left _ _ hbase, Nat.div_eq_of_lt (by omega)]
  omega

/-- **The reachable arrays are those that simulate a flat buffer.** -/
theorem reachable_iff (hbase : 0 < base) : Reachable base ba ↔ ∃ f, Simulates base ba f := by
  refine ⟨Reachable.simulates hbase, fun ⟨f, h⟩ => ?_⟩
  -- a new array, grown to as many blocks and filled with the same bytes
  have junk : Junk := fun _ _ => 0
  have hnew := simulates_new junk hbase
  have hroot : (newNode junk base 0).length = base := by
    rw [newNode, List.length_map, List.length_range]
  have hcount := List.length_pos_iff.2 h.nonempty
  have hlen := h.length_bytes
  obtain ⟨hgrown, -⟩ := hnew.addCapacity hbase junk (n := base * ba.nodes.length)
    (Nat.mul_pos hbase hcount)
  obtain ⟨ios, more, hget, h₁, hroom, hcovers⟩ :=
    hnew.getWriteBuffers hbase junk (n := base * ba.nodes.length)
  have hgrownlen := hgrown.length_bytes
  rw [missing_new hbase hcount hroot] at hgrownlen
  dsimp only at hgrownlen
  rw [List.length_append, hroot, (uniform_newNodes _ base _).length_flatten, List.length_map,
    List.length_range] at hgrownlen
  have hsame : base + base * (ba.nodes.length - 1) = base * ba.nodes.length := by
    rw [Nat.add_comm, ← Nat.mul_succ]
    congr 1
    omega
  obtain ⟨ba₂, hscatter, -, h₂⟩ := h₁.scatter (d := f.bytes) hcovers hroom (by omega)
  have hbytes := h₁.length_bytes
  dsimp only at hbytes
  have hspliced : splice (newNode junk base 0 ++ more) 0 f.bytes = f.bytes := by
    rw [splice, List.take_zero, List.nil_append, Nat.zero_add, List.drop_of_length_le (by omega),
      List.append_nil]
  dsimp only at h₂
  rw [hspliced] at h₂
  have hreach : Reachable base ba₂ := .fill _ _ f.bytes (.new _) hget (by omega) hscatter
  -- then the size, and then the position
  have hpos := h.position_le
  have hsize := h.size_le
  obtain ⟨ba₃, hset₃, h₃⟩ := h₂.setPosition_of_le hbase f.size h.size_le
  obtain ⟨ba₄, hset₄, h₄⟩ := h₃.setPosition_of_le hbase f.position (by dsimp only; omega)
  have hflat : (⟨f.bytes, f.position, max (max 0 f.size) f.position⟩ : Flat) = f := by
    have hmax : max (max 0 f.size) f.position = f.size := by omega
    rw [hmax]
  dsimp only at h₄
  rw [hflat] at h₄
  rw [h.ext hbase h₄]
  exact .setPosition _ (.setPosition _ hreach hset₃) hset₄

/-! ### Reading and writing without a copy -/

/-- The part is not empty and lies in its block. -/
def IoVec.Inside (io : IoVec) (ba : ByteArray) : Prop :=
  0 < io.len ∧ ∃ node, ba.nodes[io.node]? = some node ∧ io.offset + io.len ≤ node.length

/-- The contents are the bytes up to the size. -/
theorem Simulates.contents (h : Simulates base ba f) : ba.contents = f.bytes.take f.size := by
  rw [ByteArray.contents, h.bytes, h.size]

/-- What can be read are those behind the position. -/
theorem Simulates.readable (h : Simulates base ba f) : ba.readable = (f.bytes.take f.size).drop f.position := by
  rw [ByteArray.readable, h.contents, h.position]

/-- The first readable bytes. -/
theorem Simulates.take_readable (h : Simulates base ba f) (hle : n ≤ ba.getReadSize) :
    ba.readable.take n = (ba.nodes.flatten.drop f.position).take n := by
  rw [ByteArray.getReadSize, h.size, h.position] at hle
  rw [ByteArray.readable, ByteArray.contents, h.size, h.position, List.drop_take, List.take_take,
    Nat.min_eq_left (by omega)]

/-- The flat buffer after bytes were put at the position in blocks that were added before. -/
theorem take_write (base : Nat) {data : Bytes} (hpos : f.position ≤ f.size) (hsize : f.size ≤ f.bytes.length)
    (hne : data ≠ []) (junk : Junk) (more : Bytes) :
    (f.write base junk data).position = f.position + data.length ∧
      (f.write base junk data).size = max f.size (f.position + data.length) ∧
      (f.write base junk data).bytes.take (f.write base junk data).size =
        (splice (f.bytes ++ more) f.position data).take (max f.size (f.position + data.length)) := by
  rw [Flat.write, if_neg hne]
  refine ⟨rfl, rfl, ?_⟩
  dsimp only
  rw [take_splice_append _ (by omega) (by omega), take_splice_append _ (by omega) (by omega)]

/-- **The parts agree with the copies.**  On every reachable array, `getReadBuffers` hands out
the first `min(len, getReadSize())` readable bytes and returns their number; and to fill the
parts of `getWriteBuffers` in order and to move the position behind the data leaves the
contents, the position, the size and the blocks that `write` leaves.  No part is empty or goes
outside its block. -/
theorem parts_agree (base : Nat) (hbase : 1 ≤ base) (ba : ByteArray) (h : Reachable base ba) :
    (∀ len, ∃ ios, ba.getReadBuffers len = some (ios, min len ba.getReadSize) ∧
      ba.gather ios = some (ba.readable.take (min len ba.getReadSize)) ∧ ∀ io ∈ ios, io.Inside ba) ∧
    ∀ (junk junk' : Junk) (len : Nat) (d : Bytes), 1 ≤ len → 1 ≤ d.length → d.length ≤ len →
      ∃ ios ba₁ ba₂ filled written, ba.getWriteBuffers junk len = some (ios, ba₁) ∧
        (∀ io ∈ ios, io.Inside ba₁) ∧ ba₁.scatter ios d = some ba₂ ∧
        ba₂.setPosition (ba₂.position + d.length) = some (.ok (), filled) ∧
        ba.write junk' d = some written ∧
        filled.contents = written.contents ∧ filled.position = written.position ∧
        filled.size = written.size ∧ (∃ f, Simulates base filled f) ∧ ∃ f, Simulates base written f := by
  obtain ⟨f, hf⟩ := h.simulates hbase
  constructor
  · intro len
    obtain ⟨ios, hget, hcovers⟩ := hf.getReadBuffers hbase len
    refine ⟨ios, hget, ?_, hcovers.inside hf.uniform⟩
    rw [hcovers.gather hf.uniform, hf.take_readable (Nat.min_le_right _ _)]
  · intro junk junk' len d _ hd hle
    have hne : d ≠ [] := List.length_pos_iff.1 hd
    obtain ⟨ios, more, hget, h₁, hroom, hcovers⟩ := hf.getWriteBuffers hbase junk (n := len)
    obtain ⟨ba₂, hscatter, hpos₂, h₂⟩ := h₁.scatter hcovers hroom hle
    have hlen₁ := h₁.length_bytes
    dsimp only at hlen₁
    have hlen₂ : (splice (f.bytes ++ more) f.position d).length = (f.bytes ++ more).length :=
      length_splice (by omega)
    have hsame : ba₂.position = f.position := hpos₂.trans h₁.position
    obtain ⟨filled, hset, h₃⟩ := h₂.setPosition_of_le hbase (ba₂.position + d.length)
      (by dsimp only; omega)
    obtain ⟨written, hwrite, h₄⟩ := hf.write hbase junk' d
    obtain ⟨hposw, hsizew, htake⟩ := take_write base hf.position_le hf.size_le hne junk' more
    refine ⟨ios, _, ba₂, filled, written, hget, hcovers.inside h₁.uniform, hscatter, hset, hwrite,
      ?_, ?_, ?_, ⟨_, h₃⟩, ⟨_, h₄⟩⟩
    · rw [h₃.contents, h₄.contents, htake, hsame]
    · rw [h₃.position, h₄.position, hposw, hsame]
    · rw [h₃.size, h₄.size, hsizew, hsame]

/-- Three bytes into a new array with blocks of two bytes. -/
theorem parts_agree_new :
    ∃ ios ba₁ ba₂ filled written, (ByteArray.new (fun _ _ => 0) 2).getWriteBuffers (fun _ _ => 0) 4 = some (ios, ba₁) ∧
      ba₁.scatter ios (str "abc") = some ba₂ ∧ ba₂.setPosition (ba₂.position + 3) = some (.ok (), filled) ∧
      (ByteArray.new (fun _ _ => 0) 2).write (fun _ _ => 0) (str "abc") = some written ∧
      filled.contents = written.contents := by
  obtain ⟨ios, ba₁, ba₂, filled, written, hget, -, hscatter, hset, hwrite, hsame, -⟩ :=
    (parts_agree 2 (by decide) _ (.new fun _ _ => 0)).2 (fun _ _ => 0) (fun _ _ => 0) 4 (str "abc")
      (by decide) (by decide) (by decide)
  exact ⟨ios, ba₁, ba₂, filled, written, hget, hscatter, hset, hwrite, hsame⟩

end Buffer
end Wuchat
