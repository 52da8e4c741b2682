/-
# Reading from a given position

`read(buf, size, position)` and `getReadBuffers(buffers, len, position)` of `bytearray.cpp`.

Both bound the length by `getReadSize()`, what is left behind the cursor and not behind the
given position.  `read` then starts in the block of the cursor, at the offset of the given
position in its own block; it follows `m_cur` also when there is nothing to read, which is null
at the end of the last block.  `getReadBuffers` walks from `m_root` to the right block.

So the two are right when the bound is and, for `read`, the position is in the block of the
cursor (`InPlace`).  Wrong bytes may happen to be equal to the right ones: the law is asked for
whatever the blocks hold (`readsAt_iff`).
-/

import Mathlib.Algebra.GroupWithZero.Nat
import Wuchat.Buffer.Parts

namespace Wuchat
namespace Buffer

open Foundation Streams

namespace ByteArray

/-- `read(buf, size, position)`.  The loop is that of `read`, on a copy of `m_cur`. -/
def readAt (size position : Nat) (ba : ByteArray) : Option (Except String Bytes) :=
  if ba.getReadSize < size then some (.error "not enough length")
  else do
    let npos := position % ba.baseSize
    let node ← ba.node
    let (bytes, _) ← readLoop ba.nodes.length npos (node.length - npos) size [] ba
    some (.ok bytes)

/-- `cur = cur->next`, `count` times. -/
def walk : Nat → Option Nat → ByteArray → Option (Option Nat)
  | 0, cur, _ => some cur
  | count + 1, cur, ba => do
    let i ← cur
    walk count (if i + 1 < ba.nodes.length then some (i + 1) else none) ba

/-- `getReadBuffers(buffers, len, position)`: the parts it appends and what it returns. -/
def getReadBuffersAt (len position : Nat) (ba : ByteArray) : Option (List IoVec × Nat) :=
  let len := if ba.getReadSize < len then ba.getReadSize else len
  if len = 0 then some ([], 0)
  else do
    let npos := position % ba.baseSize
    let cur ← ba.walk (position / ba.baseSize) (some 0)
    let node ← cur.bind (ba.nodes[·]?)
    let ios ← writeBuffersLoop ba.nodes.length cur npos (node.length - npos) len ba
    some (ios, len)

end ByteArray

/-- **The law of the positional calls:** `read(buf, n, p)` gives the bytes from `p` on, or throws
when there are too few, and `getReadBuffers(buffers, len, p)` hands out the bytes from `p` on. -/
def ByteArray.ReadsAt (ba : ByteArray) (p n len : Nat) : Prop :=
  ba.readAt n p = some (if n ≤ ba.size - p then .ok ((ba.contents.drop p).take n)
    else .error "not enough length") ∧
  ∃ ios ret, ba.getReadBuffersAt len p = some (ios, ret) ∧
    ba.gather ios = some ((ba.contents.drop p).take (min len (ba.size - p)))

/-- **The bounds are right, and `read` starts in the right block.** -/
def ByteArray.InPlace (ba : ByteArray) (p n len : Nat) : Prop :=
  (if ba.size - p < n then ba.getReadSize < n
    else if n = 0 then ba.position < ba.capacity
    else n ≤ ba.getReadSize ∧ p / ba.baseSize = ba.position / ba.baseSize) ∧
  min len ba.getReadSize = min len (ba.size - p)

/-- Whether a positioned read stays in the block can be computed. -/
instance (ba : ByteArray) (p n len : Nat) : Decidable (ba.InPlace p n len) :=
  inferInstanceAs (Decidable (_ ∧ _))

/-- The arrays differ at most in what their blocks hold. -/
structure SameShape (ba ba' : ByteArray) : Prop where
  baseSize : ba'.baseSize = ba.baseSize
  position : ba'.position = ba.position
  capacity : ba'.capacity = ba.capacity
  size : ba'.size = ba.size
  cur : ba'.cur = ba.cur

variable {base p n len : Nat} {ba ba' : ByteArray} {f : Flat}

/-- Arrays of one shape have as much to read. -/
theorem SameShape.getReadSize (h : SameShape ba ba') : ba'.getReadSize = ba.getReadSize := by
  rw [ByteArray.getReadSize, ByteArray.getReadSize, h.size, h.position]

/-- A positioned read stays in place in an array of the same shape. -/
theorem SameShape.inPlace (h : SameShape ba ba') (hin : ba.InPlace p n len) : ba'.InPlace p n len := by
  rw [ByteArray.InPlace, h.getReadSize, h.size, h.position, h.capacity, h.baseSize]
  exact hin

/-- Arrays that simulate flat buffers of one size and position. -/
theorem Simulates.sameShape {bytes : Bytes} (h : Simulates base ba f)
    (h' : Simulates base ba' { f with bytes }) (hlen : bytes.length = f.bytes.length) :
    SameShape ba ba' := by
  have hcap : ba'.capacity = ba.capacity := by
    rw [h'.capacity, ← h'.length_bytes, h.capacity, ← h.length_bytes, hlen]
  have hplace : ∀ pos, place base ba'.nodes.length pos = place base ba.nodes.length pos := by
    intro pos
    rw [place, place, ← h'.capacity, ← h.capacity, hcap]
  refine ⟨h'.baseSize.trans h.baseSize.symm, h'.position.trans h.position.symm, hcap,
    h'.size.trans h.size.symm, ?_⟩
  rw [h'.cur, h.cur, h'.position, h.position, hplace]

/-- **Other bytes in the same blocks.** -/
theorem Simulates.refill (h : Simulates base ba f) (hbase : 0 < base) {bytes : Bytes}
    (hlen : bytes.length = f.bytes.length) :
    ∃ ba', Simulates base ba' { f with bytes } := by
  have hcount := List.length_pos_iff.2 h.nonempty
  have hpos := h.position_le
  have hsize := h.size_le
  have hbytes := h.length_bytes
  -- from the start of the array, all parts are filled
  obtain ⟨ba₀, -, h₀⟩ := h.setPosition_of_le hbase 0 (Nat.zero_le _)
  have hbytes₀ := h₀.length_bytes
  dsimp only at hbytes₀
  have hroom : 0 + f.bytes.length ≤ base * ba₀.nodes.length := by omega
  obtain ⟨node, ios, -, -, hcovers⟩ := h₀.covers hbase (n := f.bytes.length)
    (by rw [hbytes]; exact Nat.mul_pos hbase hcount) hroom
  obtain ⟨ba₁, -, -, h₁⟩ := h₀.scatter hcovers hroom (d := bytes) (by omega)
  have hspliced : splice f.bytes 0 bytes = bytes := by
    rw [splice, List.take_zero, List.nil_append, List.drop_of_length_le (by omega), List.append_nil]
  dsimp only at h₁
  rw [hspliced] at h₁
  obtain ⟨ba₂, -, h₂⟩ := h₁.setPosition_of_le hbase f.position (by dsimp only; omega)
  have hmax : max (max f.size 0) f.position = f.size := by omega
  dsimp only at h₂
  rw [hmax] at h₂
  exact ⟨ba₂, h₂⟩

/-! ### `read` from a position -/

/-- The loop of `read` only appends. -/
theorem readLoop_extends : ∀ (fuel : Nat) {npos ncap n : Nat} {buf out : Bytes} {ba ba' : ByteArray},
    ByteArray.readLoop fuel npos ncap n buf ba = some (out, ba') → buf <+: out
  | 0, _, _, _, _, _, _, _, h => by cases h
  | fuel + 1, npos, ncap, n, buf, out, ba, ba', h => by
    rw [ByteArray.readLoop] at h
    split at h
    · obtain ⟨rfl, -⟩ := Prod.mk.inj (Option.some.inj h)
      exact List.prefix_refl _
    split at h
    · obtain ⟨bytes, -, h⟩ := Option.bind_eq_some_iff.1 h
      obtain ⟨node, -, h⟩ := Option.bind_eq_some_iff.1 h
      obtain ⟨rfl, -⟩ := Prod.mk.inj (Option.some.inj h)
      exact List.prefix_append _ _
    · obtain ⟨bytes, -, h⟩ := Option.bind_eq_some_iff.1 h
      obtain ⟨node, -, h⟩ := Option.bind_eq_some_iff.1 h
      exact (List.prefix_append _ _).trans (readLoop_extends fuel h)

/-- **The first byte read** is that at the offset in the block of `m_cur`. -/
theorem readLoop_head {fuel npos i : Nat} {out : Bytes} (huni : Uniform base ba.nodes)
    (hcur : ba.cur = some i) (hi : i < ba.nodes.length) (hnpos : npos < base) (hn : 0 < n)
    (h : ByteArray.readLoop fuel npos (base - npos) n [] ba = some (out, ba')) :
    out.head? = ba.nodes.flatten[base * i + npos]? := by
  obtain ⟨block, hblock, hlen⟩ := exists_block huni hi
  -- the first turn copies at least one byte of the block
  have hhead : ∀ k, 0 < k → k ≤ base - npos → (block.drop npos).take k <+: out →
      out.head? = ba.nodes.flatten[base * i + npos]? := by
    rintro k hk hle ⟨rest, rfl⟩
    have hfirst : ∀ l : Bytes, (l.take k).head? = l.head? := fun l => by
      cases l with
      | nil => rw [List.take_nil]
      | cons b l => rw [List.take_cons hk, List.head?_cons, List.head?_cons]
    have hpos : ((block.drop npos).take k) ≠ [] := by
      rw [← List.length_pos_iff, List.length_take, List.length_drop]
      omega
    rw [List.head?_append_of_ne_nil _ hpos, ← huni.take_drop_flatten hblock (by omega), hfirst, List.head?_drop]
  cases fuel with
  | zero => cases h
  | succ fuel =>
    rw [ByteArray.readLoop, if_neg (by omega)] at h
    split at h
    · rename_i hin
      rw [copyOut_eq hcur hblock (by omega), Option.bind_eq_bind, Option.bind_some] at h
      obtain ⟨node, -, h⟩ := Option.bind_eq_some_iff.1 h
      obtain ⟨rfl, -⟩ := Prod.mk.inj (Option.some.inj h)
      exact hhead n hn hin (List.prefix_refl _)
    · rename_i hout
      rw [copyOut_eq hcur hblock (by omega), Option.bind_eq_bind, Option.bind_some] at h
      obtain ⟨node, -, h⟩ := Option.bind_eq_some_iff.1 h
      exact hhead (base - npos) (by omega) (Nat.le_refl _) (readLoop_extends fuel h)

/-- **In the block of the cursor**, `read(buf, n, p)` gives the bytes from `p` on. -/
theorem Simulates.readAt_of_block (h : Simulates base ba f) (hbase : 0 < base) (hn : 0 < n)
    (hle : n ≤ ba.getReadSize) (hp : p + n ≤ f.size) (hblock : p / base = f.position / base) :
    ba.readAt n p = some (.ok ((ba.contents.drop p).take n)) := by
  have hlen := h.length_bytes
  have hsize := h.size_le
  have hrest : n ≤ f.size - f.position := by
    rwa [ByteArray.getReadSize, h.size, h.position] at hle
  obtain ⟨i, block, hcur, hi, hnode, hblen, hplace, hnpos⟩ := h.block hbase (by omega)
  -- the block of the position and that of `p` are the same
  have hindex : i = p / base := by
    rw [hblock, hplace, Nat.mul_add_div hbase, Nat.div_eq_of_lt hnpos, Nat.add_zero]
  have hpplace : base * i + p % base = p := by
    rw [hindex]
    exact Nat.div_add_mod p base
  have hloop := readLoop_spec hbase ba.nodes.length [] (n := n) h.uniform hcur hi (Nat.mod_lt p hbase) hn
    (by omega) (by omega)
  rw [hpplace, List.nil_append] at hloop
  rw [ByteArray.readAt, if_neg (by omega), hnode, Option.bind_eq_bind, Option.bind_some, hblen, h.baseSize, hloop,
    Option.bind_eq_bind, Option.bind_some, ByteArray.contents, h.size, List.drop_take, List.take_take,
    Nat.min_eq_left (by omega)]

/-- A read of no bytes needs a block behind the cursor all the same. -/
theorem Simulates.readAt_zero (h : Simulates base ba f) (hbase : 0 < base) (p : Nat) :
    ba.readAt 0 p = if ba.position < ba.capacity then some (.ok []) else none := by
  rw [ByteArray.readAt, if_neg (Nat.not_lt_zero _)]
  split
  · rename_i hlt
    rw [h.capacity, h.position] at hlt
    obtain ⟨i, block, -, hi, hnode, -⟩ := h.block hbase hlt
    obtain ⟨k, hk⟩ : ∃ k, ba.nodes.length = k + 1 := ⟨ba.nodes.length - 1, by omega⟩
    rw [hnode, hk, Option.bind_eq_bind, Option.bind_some, ByteArray.readLoop, if_pos rfl]
    rfl
  · rename_i hge
    rw [h.capacity] at hge
    rw [ByteArray.node, h.cur, place, if_neg hge]
    rfl

/-- Bytes of which only one is not zero. -/
def marked (cap p : Nat) : Bytes := (List.replicate cap 0).set p 1

/-- The marked bytes, one by one. -/
theorem marked_getElem? (cap : Nat) (hp : p < cap) {q : Nat} (hq : q < cap) :
    (marked cap p)[q]? = some (if q = p then 1 else 0) := by
  rw [marked, List.getElem?_set, List.length_replicate]
  split
  · rename_i heq
    rw [if_pos heq.symm]
  · rename_i hne
    rw [List.getElem?_replicate_of_lt hq, if_neg fun h => hne h.symm]

/-- **In any other block, `read` is wrong** about some bytes in the blocks. -/
theorem Simulates.block_of_readAt (h : Simulates base ba f) (hbase : 0 < base) (hn : 0 < n)
    (hle : n ≤ ba.getReadSize) (hp : p + n ≤ f.size)
    (hall : ∀ ba', Reachable base ba' → SameShape ba ba' →
      ba'.readAt n p = some (.ok ((ba'.contents.drop p).take n))) :
    p / base = f.position / base := by
  have hlen := h.length_bytes
  have hsize := h.size_le
  have hrest : n ≤ f.size - f.position := by
    rwa [ByteArray.getReadSize, h.size, h.position] at hle
  have hmarked : (marked f.bytes.length p).length = f.bytes.length := by
    rw [marked, List.length_set, List.length_replicate]
  obtain ⟨ba', h'⟩ := h.refill hbase hmarked
  have hshape := h.sameShape h' hmarked
  have hread := hall ba' ((reachable_iff hbase).2 ⟨_, h'⟩) hshape
  have hlen' := h'.length_bytes
  dsimp only at hlen'
  obtain ⟨i, block, hcur, hi, hnode, hblen, hplace, hnpos⟩ := h'.block hbase (by dsimp only; omega)
  dsimp only at hplace
  rw [ByteArray.readAt, if_neg (by rw [hshape.getReadSize]; omega), hnode, Option.bind_eq_bind, Option.bind_some,
    hblen, h'.baseSize] at hread
  obtain ⟨⟨out, ba''⟩, hloop, hout⟩ := Option.bind_eq_some_iff.1 hread
  have hhead := readLoop_head h'.uniform hcur hi (Nat.mod_lt p hbase) hn hloop
  -- the first byte is the marked one
  obtain rfl := Except.ok.inj (Option.some.inj hout)
  obtain ⟨k, rfl⟩ : ∃ k, n = k + 1 := ⟨n - 1, by omega⟩
  have hfirst : ((ba'.contents.drop p).take (k + 1)).head? = some 1 := by
    have hmark := marked_getElem? f.bytes.length (show p < f.bytes.length by omega) (show p < f.bytes.length by omega)
    rw [if_pos rfl] at hmark
    rw [h'.contents, List.head?_take, if_neg (Nat.succ_ne_zero k), List.head?_drop, List.getElem?_take,
      if_pos (by dsimp only; omega)]
    exact hmark
  have hq : base * i + p % base < f.bytes.length := by
    have hmul : base * (i + 1) ≤ base * ba'.nodes.length := Nat.mul_le_mul_left base hi
    have hmod := Nat.mod_lt p hbase
    rw [Nat.mul_succ] at hmul
    omega
  rw [hfirst, h'.bytes, marked_getElem? _ (by omega) hq] at hhead
  have hsame : base * i + p % base = p := by
    by_contra hne
    rw [if_neg hne] at hhead
    exact absurd hhead (by decide)
  have hdiv := Nat.div_add_mod p base
  have hindex : base * i = base * (p / base) := by omega
  rw [hplace, Nat.mul_add_div hbase, Nat.div_eq_of_lt hnpos, Nat.add_zero]
  exact (Nat.eq_of_mul_eq_mul_left hbase hindex).symm

/-! ### Parts from a position -/

/-- From a block, `count` more blocks on. -/
theorem walk_eq : ∀ {count i : Nat}, i + count < ba.nodes.length →
    ba.walk count (some i) = some (some (i + count))
  | 0, _, _ => rfl
  | count + 1, i, h => by
    rw [ByteArray.walk, Option.bind_eq_bind, Option.bind_some, if_pos (by omega), walk_eq (by omega)]
    congr 2
    omega

/-- The loop hands out as many bytes as it was asked for. -/
theorem sum_writeBuffersLoop : ∀ (fuel : Nat) {cur : Option Nat} {npos ncap len : Nat} {ios : List IoVec},
    ba.writeBuffersLoop fuel cur npos ncap len = some ios → (ios.map IoVec.len).sum = len
  | 0, _, _, _, _, _, h => by cases h
  | fuel + 1, cur, npos, ncap, len, ios, h => by
    rw [ByteArray.writeBuffersLoop] at h
    split at h
    · rename_i hzero
      obtain rfl := Option.some.inj h
      exact hzero.symm
    obtain ⟨i, -, h⟩ := Option.bind_eq_some_iff.1 h
    split at h
    · obtain rfl := Option.some.inj h
      exact Nat.add_zero len
    · rename_i hout
      obtain ⟨node, -, h⟩ := Option.bind_eq_some_iff.1 h
      obtain ⟨rest, hrest, h⟩ := Option.bind_eq_some_iff.1 h
      obtain rfl := Option.some.inj h
      rw [List.map_cons, List.sum_cons, sum_writeBuffersLoop fuel hrest]
      dsimp only
      omega

/-- Parts denote as many bytes as they have together. -/
theorem length_gather : ∀ {ios : List IoVec} {bs : Bytes}, ba.gather ios = some bs →
    bs.length = (ios.map IoVec.len).sum
  | [], bs, h => by
    obtain rfl := Option.some.inj h
    rfl
  | io :: ios, bs, h => by
    obtain ⟨node, -, h⟩ := Option.bind_eq_some_iff.1 h
    obtain ⟨rest, hrest, h⟩ := Option.bind_eq_some_iff.1 h
    split at h
    · rename_i hin
      obtain rfl := Option.some.inj h
      rw [List.length_append, List.length_take, List.length_drop, length_gather hrest, List.map_cons,
        List.sum_cons]
      omega
    · cases h

/-- The parts are as many bytes as the cursor leaves. -/
theorem length_getReadBuffersAt {ios : List IoVec} {ret : Nat} {bs : Bytes}
    (h : ba.getReadBuffersAt len p = some (ios, ret)) (hbs : ba.gather ios = some bs) :
    bs.length = min len ba.getReadSize := by
  have hmin : (if ba.getReadSize < len then ba.getReadSize else len) = min len ba.getReadSize := by
    split <;> omega
  rw [length_gather hbs]
  rw [ByteArray.getReadBuffersAt, hmin] at h
  dsimp only at h
  split at h
  · rename_i hzero
    obtain ⟨rfl, -⟩ := Prod.mk.inj (Option.some.inj h)
    exact hzero.symm
  · obtain ⟨cur, -, h⟩ := Option.bind_eq_some_iff.1 h
    obtain ⟨node, -, h⟩ := Option.bind_eq_some_iff.1 h
    obtain ⟨rest, hrest, h⟩ := Option.bind_eq_some_iff.1 h
    obtain ⟨rfl, -⟩ := Prod.mk.inj (Option.some.inj h)
    exact sum_writeBuffersLoop _ hrest

/-- **With the right length, `getReadBuffers(buffers, len, p)` hands out the bytes from `p` on.** -/
theorem Simulates.getReadBuffersAt (h : Simulates base ba f) (hbase : 0 < base)
    (hmin : min len ba.getReadSize = min len (ba.size - p)) :
    ∃ ios ret, ba.getReadBuffersAt len p = some (ios, ret) ∧
      ba.gather ios = some ((ba.contents.drop p).take (min len (ba.size - p))) := by
  have hif : (if ba.getReadSize < len then ba.getReadSize else len) = min len (ba.size - p) := by
    rw [← hmin]
    split <;> omega
  rw [ByteArray.getReadBuffersAt, hif]
  dsimp only
  split
  · rename_i hzero
    refine ⟨[], 0, rfl, ?_⟩
    rw [hzero, List.take_zero]
    rfl
  · rename_i hne
    have hlen := h.length_bytes
    have hsize := h.size_le
    rw [h.size] at hne
    have hp : p / base < ba.nodes.length := Nat.div_lt_of_lt_mul (by omega)
    have hplace := Nat.div_add_mod p base
    obtain ⟨block, hblock, hblen⟩ := exists_block h.uniform hp
    obtain ⟨ios, hios, hcovers⟩ := writeBuffersLoop_covers h.uniform hbase ba.nodes.length hp
      (Nat.mod_lt p hbase)
      (show base * (p / base) + p % base + min len (ba.size - p) ≤ base * ba.nodes.length by
        rw [hplace, h.size]; omega)
      (Nat.le_add_right _ _)
    rw [hplace] at hcovers
    refine ⟨ios, min len (ba.size - p), ?_, ?_⟩
    · rw [h.baseSize, walk_eq (by omega), Option.bind_eq_bind, Option.bind_some, Nat.zero_add, Option.bind_some,
        hblock, Option.bind_eq_bind, Option.bind_some, hblen, hios]
      rfl
    · rw [hcovers.gather h.uniform, ByteArray.contents, List.drop_take, List.take_take,
        Nat.min_eq_left (Nat.min_le_right _ _)]

/-- **Exactly when the positional calls keep their law**, whatever the blocks of the array hold. -/
theorem readsAt_iff (base : Nat) (hbase : 1 ≤ base) (ba : ByteArray) (h : Reachable base ba) (p n len : Nat)
    (hp : p ≤ ba.size) :
    (∀ ba', Reachable base ba' → SameShape ba ba' → ba'.ReadsAt p n len) ↔ ba.InPlace p n len := by
  obtain ⟨f, hf⟩ := h.simulates hbase
  have hself : SameShape ba ba := ⟨rfl, rfl, rfl, rfl, rfl⟩
  constructor
  · intro hall
    obtain ⟨hread, ios, ret, hget, hgather⟩ := hall ba h hself
    refine ⟨?_, ?_⟩
    · split
      · rename_i hover
        rw [if_neg (by omega)] at hread
        by_contra hfits
        rw [ByteArray.readAt, if_neg hfits] at hread
        obtain ⟨node, -, hread⟩ := Option.bind_eq_some_iff.1 hread
        obtain ⟨out, -, hread⟩ := Option.bind_eq_some_iff.1 hread
        cases hread
      split
      · rename_i hzero
        rw [hzero, hf.readAt_zero hbase] at hread
        by_contra hend
        rw [if_neg hend] at hread
        cases hread
      · rename_i hover hne
        have hle : n ≤ ba.getReadSize := by
          by_contra hshort
          rw [if_pos (by omega), ByteArray.readAt, if_pos (by omega)] at hread
          cases hread
        rw [hf.baseSize, hf.position]
        refine ⟨hle, hf.block_of_readAt hbase (by omega) hle (by rw [hf.size] at hp hover; omega) ?_⟩
        intro ba' hreach hshape
        have hread' := (hall ba' hreach hshape).1
        rwa [hshape.size, if_pos (by omega)] at hread'
    · have hlength := length_getReadBuffersAt hget hgather
      have hlen := hf.length_bytes
      have hsize := hf.size_le
      rw [hf.contents, List.length_take, List.length_drop, List.length_take, hf.size] at hlength
      rw [hf.size]
      omega
  · intro hin ba' hreach hshape
    obtain ⟨f', hf'⟩ := hreach.simulates hbase
    obtain ⟨hread, hmin⟩ := hshape.inPlace hin
    rw [← hshape.size] at hp
    refine ⟨?_, hf'.getReadBuffersAt hbase hmin⟩
    split at hread
    · rw [if_neg (by omega), ByteArray.readAt, if_pos hread]
    rw [if_pos (by omega)]
    split at hread
    · rename_i hzero
      rw [hzero, hf'.readAt_zero hbase, if_pos hread, List.take_zero]
    · rename_i hover hne
      rw [hf'.baseSize, hf'.position] at hread
      refine hf'.readAt_of_block hbase (by omega) hread.1 ?_ hread.2
      rw [hf'.size] at hp hover
      omega

/-- `hello` in blocks of four bytes, the cursor behind it. -/
def helloArray : ByteArray := ⟨4, 5, 8, 5, [str "hell", str "o" ++ [0, 0, 0]], some 1⟩

/-- The array of the example can be reached. -/
theorem reachable_helloArray : Reachable 4 helloArray :=
  .write (fun _ _ => 0) (str "hello") (.new fun _ _ => 0) (by decide)

/-- With the cursor in the first block, its last byte is read from there, and the two bytes
behind it are handed out. -/
theorem readsAt_iff_helloArray :
    (∀ ba', Reachable 4 ba' → SameShape { helloArray with position := 1, cur := some 0 } ba' →
      ba'.ReadsAt 3 1 2) ↔ ByteArray.InPlace { helloArray with position := 1, cur := some 0 } 3 1 2 :=
  readsAt_iff 4 (by decide) _ (.setPosition 1 reachable_helloArray rfl) 3 1 2 (by decide)

/-- **Behind what was written, nothing can be read from the start:** the cursor leaves no byte. -/
theorem readAt_written : Reachable 4 helloArray ∧ (0 : Nat) ≤ helloArray.size ∧ 5 ≤ helloArray.size - 0 ∧
    helloArray.readAt 5 0 = some (.error "not enough length") ∧
    helloArray.getReadBuffersAt 5 0 = some ([], 0) ∧ ¬ helloArray.ReadsAt 0 5 5 := by
  refine ⟨reachable_helloArray, by decide, by decide, by decide, by decide, fun h => ?_⟩
  have hread := h.1
  rw [if_pos (by decide)] at hread
  exact absurd hread (by decide)

end Buffer
end Wuchat
