/-
# The byte array is a flat buffer

What the byte array is for: bytes in one piece, a position, and a size (`Flat`).  A write
puts its bytes at the position, in new blocks where there is no room; a read takes
bytes up to the size; `setPosition` moves within the capacity.

`Simulates` relates the two: the blocks put together are the bytes, and `m_cur` is the
block of the position, null exactly at the end of the last block.  Every call keeps
it and answers as the flat buffer does (`Simulates.step`), so no sequence of calls
follows a null pointer (`byteArray_simulates_flat`).
-/

import Wuchat.Buffer.ByteArray

namespace Wuchat
namespace Buffer

open Foundation Streams

/-- A flat buffer with a position. -/
structure Flat where
  bytes : Bytes
  position : Nat
  size : Nat

namespace Flat

/-- The blocks that have to be added for `n` bytes at the position. -/
def missing (base n : Nat) (f : Flat) : Nat := (n - (f.bytes.length - f.position) + base - 1) / base

/-- The bytes put at the position, in new blocks where there is no room. -/
def write (base : Nat) (junk : Junk) (data : Bytes) (f : Flat) : Flat :=
  if data = [] then f
  else
    let room := f.bytes ++ ((List.range (f.missing base data.length)).map (newNode junk base)).flatten
    ⟨splice room f.position data, f.position + data.length, max f.size (f.position + data.length)⟩

/-- The next `n` bytes below the size. -/
def read (n : Nat) (f : Flat) : Except String Bytes × Flat :=
  if f.size < f.position + n then (.error "not enough length", f)
  else (.ok ((f.bytes.drop f.position).take n), { f with position := f.position + n })

/-- The position moved, within the capacity. -/
def setPosition (pos : Nat) (f : Flat) : Except String Bytes × Flat :=
  if f.bytes.length < pos then (.error "set_position out of range", f)
  else (.ok [], { f with position := pos, size := max f.size pos })

/-- Only the first block stays. -/
def clear (base : Nat) (f : Flat) : Flat := ⟨f.bytes.take base, 0, 0⟩

end Flat

/-- The calls. -/
inductive Op
  | write (junk : Junk) (data : Bytes)
  | read (n : Nat) (pos : 1 ≤ n)
  | setPosition (pos : Nat)
  | clear

/-- A call on the byte array. -/
def ByteArray.step : Op → ByteArray → Option (Except String Bytes × ByteArray)
  | .write junk data, ba => (ba.write junk data).map fun ba' => (.ok [], ba')
  | .read n _, ba => ba.read n
  | .setPosition pos, ba => (ba.setPosition pos).map fun r => (r.1.map fun _ => [], r.2)
  | .clear, ba => ba.clear.map fun ba' => (.ok [], ba')

/-- The same call on the flat buffer. -/
def Flat.step (base : Nat) : Op → Flat → Except String Bytes × Flat
  | .write junk data, f => (.ok [], f.write base junk data)
  | .read n _, f => f.read n
  | .setPosition pos, f => f.setPosition pos
  | .clear, f => (.ok [], f.clear base)

/-- Calls one after the other, and what they answer. -/
def ByteArray.run : List Op → ByteArray → Option (List (Except String Bytes) × ByteArray)
  | [], ba => some ([], ba)
  | op :: ops, ba => do
    let (out, ba) ← ba.step op
    let (outs, ba) ← ByteArray.run ops ba
    some (out :: outs, ba)

/-- The same calls on the flat buffer. -/
def Flat.run (base : Nat) : List Op → Flat → List (Except String Bytes) × Flat
  | [], f => ([], f)
  | op :: ops, f =>
    let r := f.step base op
    let rs := Flat.run base ops r.2
    (r.1 :: rs.1, rs.2)

/-- The block of a position among `count` blocks; null at the end of the last. -/
def place (base count pos : Nat) : Option Nat := if pos < base * count then some (pos / base) else none

/-- **The blocks are the flat buffer.** -/
structure Simulates (base : Nat) (ba : ByteArray) (f : Flat) : Prop where
  baseSize : ba.baseSize = base
  uniform : Uniform base ba.nodes
  nonempty : ba.nodes ≠ []
  bytes : ba.nodes.flatten = f.bytes
  capacity : ba.capacity = base * ba.nodes.length
  position : ba.position = f.position
  size : ba.size = f.size
  position_le : f.position ≤ f.size
  size_le : f.size ≤ f.bytes.length
  cur : ba.cur = place base ba.nodes.length ba.position

variable {base : Nat} {ba : ByteArray} {f : Flat}

/-! ### Places -/

/-- A place inside a block is in that block. -/
theorem place_block {count i p : Nat} (hi : i < count) (hp : p < base) :
    place base count (base * i + p) = some i := by
  have hle : base * (i + 1) ≤ base * count := Nat.mul_le_mul_left base hi
  rw [Nat.mul_succ] at hle
  rw [place, if_pos (by omega), Nat.mul_add_div (by omega), Nat.div_eq_of_lt hp, Nat.add_zero]

/-- The place behind a block is in the next one, or in none. -/
theorem place_next {count i : Nat} (hbase : 0 < base) :
    place base count (base * (i + 1)) = if i + 1 < count then some (i + 1) else none := by
  simp only [place, Nat.mul_lt_mul_left hbase, Nat.mul_div_cancel_left _ hbase]

/-! ### The loops -/

variable {i npos : Nat}

/-- The next block is the place behind this one. -/
theorem next_eq (hbase : 0 < base) (hcur : ba.cur = some i) :
    ba.next = place base ba.nodes.length (base * (i + 1)) := by
  rw [place_next hbase, ByteArray.next, hcur]
  rfl

/-- The current node, by its number. -/
theorem node_eq (hcur : ba.cur = some i) : ba.node = ba.nodes[i]? := by
  rw [ByteArray.node, hcur]
  rfl

/-- After `n` bytes of a block, `m_cur` is at the place behind them. -/
theorem advance_eq {n : Nat} (hbase : 0 < base) (hcur : ba.cur = some i) (hi : i < ba.nodes.length)
    (hin : npos + n ≤ base) :
    (if base = npos + n then ba.next else ba.cur) = place base ba.nodes.length (base * i + npos + n) := by
  split
  · rename_i hend
    rw [next_eq hbase hcur, Nat.mul_succ, Nat.add_assoc, ← hend]
  · rw [hcur, Nat.add_assoc, place_block hi (by omega)]

/-- A block has the base size. -/
theorem exists_block (huni : Uniform base ba.nodes) (hi : i < ba.nodes.length) :
    ∃ block, ba.nodes[i]? = some block ∧ block.length = base :=
  ⟨ba.nodes[i], List.getElem?_eq_getElem hi, huni _ (List.getElem_mem hi)⟩

/-- A copy into a block. -/
theorem copyIn_eq {block data : Bytes} (hcur : ba.cur = some i) (hblock : ba.nodes[i]? = some block)
    (hle : npos + data.length ≤ block.length) :
    ba.copyIn npos data = some { ba with nodes := ba.nodes.set i (splice block npos data) } := by
  have hpoke : poke block npos data = some (splice block npos data) := if_pos hle
  simp [ByteArray.copyIn, hcur, hblock, hpoke]

/-- A copy out of a block. -/
theorem copyOut_eq {block : Bytes} {n : Nat} (hcur : ba.cur = some i) (hblock : ba.nodes[i]? = some block)
    (hle : npos + n ≤ block.length) : ba.copyOut npos n = some ((block.drop npos).take n) := by
  rw [ByteArray.copyOut, node_eq hcur, hblock, Option.bind_eq_bind, Option.bind_some, if_pos hle]

/-- The array with data put in its blocks, and `m_cur` and the position behind it. -/
structure Wrote (base : Nat) (ba : ByteArray) (pos : Nat) (data : Bytes) (ba' : ByteArray) : Prop where
  uniform : Uniform base ba'.nodes
  length : ba'.nodes.length = ba.nodes.length
  flatten : ba'.nodes.flatten = splice ba.nodes.flatten pos data
  eq : ba' = { ba with
    nodes := ba'.nodes
    cur := place base ba.nodes.length (pos + data.length)
    position := ba.position + data.length }

/-- A copy that stays in its block. -/
theorem Wrote.copy {block data : Bytes} (huni : Uniform base ba.nodes)
    (hblock : ba.nodes[i]? = some block) (hin : npos + data.length ≤ base) :
    Wrote base ba (base * i + npos) data { ba with
      nodes := ba.nodes.set i (splice block npos data)
      cur := place base ba.nodes.length (base * i + npos + data.length)
      position := ba.position + data.length } := by
  have hlen : block.length = base := huni block (List.mem_of_getElem? hblock)
  refine ⟨huni.set ?_, List.length_set, huni.flatten_set hblock hin, rfl⟩
  rw [length_splice (by omega), hlen]

/-- Data after data. -/
theorem Wrote.trans {ba₁ ba₂ : ByteArray} {pos : Nat} {data more : Bytes} (h : Wrote base ba pos data ba₁)
    (hle : pos + data.length ≤ ba.nodes.flatten.length)
    (h' : Wrote base ba₁ (pos + data.length) more ba₂) : Wrote base ba pos (data ++ more) ba₂ := by
  refine ⟨h'.uniform, h'.length.trans h.length, ?_, ?_⟩
  · rw [h'.flatten, h.flatten, splice_splice hle]
  · rw [h'.eq, h.eq, h.length, List.length_append, Nat.add_assoc, Nat.add_assoc]

/-- The last turn of the loop of `write`. -/
theorem writeLoop_last {fuel : Nat} {data : Bytes} (hbase : 0 < base) (huni : Uniform base ba.nodes)
    (hcur : ba.cur = some i) (hi : i < ba.nodes.length) (hne : data ≠ []) (hin : npos + data.length ≤ base) :
    ∃ ba', ByteArray.writeLoop (fuel + 1) npos (base - npos) data ba = some ba' ∧
      Wrote base ba (base * i + npos) data ba' := by
  obtain ⟨block, hblock, hlen⟩ := exists_block huni hi
  refine ⟨_, ?_, .copy huni hblock hin⟩
  rw [ByteArray.writeLoop, if_neg hne, if_pos (by omega), copyIn_eq hcur hblock (by omega),
    Option.bind_eq_bind, Option.bind_some]
  -- the array after the copy
  generalize hba₁ : ({ ba with nodes := ba.nodes.set i (splice block npos data) } : ByteArray) = ba₁
  have hcur₁ : ba₁.cur = some i := by rw [← hba₁, hcur]
  have hlen₁ : ba₁.nodes.length = ba.nodes.length := by rw [← hba₁, List.length_set]
  have hnode₁ : ba₁.nodes[i]? = some (splice block npos data) := by
    rw [← hba₁]
    exact List.getElem?_set_self hi
  have hsize : (splice block npos data).length = base := by rw [length_splice (by omega), hlen]
  rw [Option.bind_eq_bind, node_eq hcur₁, hnode₁, Option.bind_some, hsize,
    advance_eq hbase hcur₁ (by omega) hin, hlen₁, ← hba₁]

/-- A turn of the loop of `write` that fills its block. -/
theorem writeLoop_turn (fuel : Nat) {data : Bytes} (hbase : 0 < base) (huni : Uniform base ba.nodes)
    (hcur : ba.cur = some i) (hi : i + 1 < ba.nodes.length) (hnpos : npos < base)
    (hout : base - npos < data.length) :
    ∃ ba', ByteArray.writeLoop (fuel + 1) npos (base - npos) data ba =
        ByteArray.writeLoop fuel 0 base (data.drop (base - npos)) ba' ∧
      ba'.cur = some (i + 1) ∧ Wrote base ba (base * i + npos) (data.take (base - npos)) ba' := by
  obtain ⟨block, hblock, hlen⟩ := exists_block huni (i := i) (by omega)
  have hne : data ≠ [] := by
    rw [← List.length_pos_iff]
    omega
  have htake : (data.take (base - npos)).length = base - npos := by
    rw [List.length_take]
    omega
  have hfull : base * i + npos + (data.take (base - npos)).length = base * (i + 1) := by
    rw [htake, Nat.mul_succ]
    omega
  have hplace : place base ba.nodes.length (base * (i + 1)) = some (i + 1) := by
    rw [place_next hbase, if_pos hi]
  have hin : npos + (data.take (base - npos)).length ≤ base := by omega
  have hwrote := Wrote.copy huni hblock hin
  rw [hfull, hplace, htake] at hwrote
  refine ⟨_, ?_, rfl, hwrote⟩
  rw [ByteArray.writeLoop, if_neg hne, if_neg (by omega), copyIn_eq hcur hblock (by omega),
    Option.bind_eq_bind, Option.bind_some]
  have hnext : ByteArray.next { ba with nodes := ba.nodes.set i (splice block npos (data.take (base - npos))) } =
      some (i + 1) := by
    simp [ByteArray.next, hcur, hi]
  dsimp only
  rw [hnext]
  obtain ⟨block₁, hblock₁, hlen₁⟩ := exists_block hwrote.uniform (i := i + 1) (by rw [hwrote.length]; exact hi)
  rw [Option.bind_eq_bind, node_eq rfl, hblock₁, Option.bind_some, hlen₁]

/-- **The loop of `write`** puts its data in the blocks, from any place with room. -/
theorem writeLoop_spec (hbase : 0 < base) : ∀ (fuel : Nat) {npos i : Nat} {data : Bytes} {ba : ByteArray},
    Uniform base ba.nodes → ba.cur = some i → i < ba.nodes.length → npos < base → data ≠ [] →
    base * i + npos + data.length ≤ base * ba.nodes.length → ba.nodes.length ≤ fuel + i →
    ∃ ba', ByteArray.writeLoop fuel npos (base - npos) data ba = some ba' ∧
      Wrote base ba (base * i + npos) data ba' := by
  intro fuel
  induction fuel with
  | zero =>
    intro npos i data ba _ _ hi _ _ _ hfuel
    omega
  | succ fuel ih =>
    intro npos i data ba huni hcur hi hnpos hne hroom hfuel
    rcases Nat.lt_or_ge (base - npos) data.length with hout | hin
    · have hmore : base * (i + 1) < base * ba.nodes.length := by
        rw [Nat.mul_succ]
        omega
      have hi' : i + 1 < ba.nodes.length := Nat.lt_of_mul_lt_mul_left hmore
      obtain ⟨ba₁, hturn, hcur₁, hwrote⟩ := writeLoop_turn fuel hbase huni hcur hi' hnpos hout
      have htake : (data.take (base - npos)).length = base - npos := by
        rw [List.length_take]
        omega
      have hfull : base * i + npos + (data.take (base - npos)).length = base * (i + 1) := by
        rw [htake, Nat.mul_succ]
        omega
      have hrest : data.drop (base - npos) ≠ [] := by
        rw [← List.length_pos_iff, List.length_drop]
        omega
      have hlen₁ := hwrote.length
      obtain ⟨ba', hloop, hwrote'⟩ := ih hwrote.uniform hcur₁ (by omega) hbase hrest
        (by rw [List.length_drop, hlen₁, Nat.mul_succ]; omega) (by omega)
      refine ⟨ba', hturn.trans hloop, ?_⟩
      rw [Nat.add_zero, ← hfull] at hwrote'
      have h := hwrote.trans (by rw [huni.length_flatten]; omega) hwrote'
      rwa [List.take_append_drop] at h
    · exact writeLoop_last hbase huni hcur hi hne (by omega)

/-- **The loop of `read`** takes what is in the blocks, from any place with that much
behind it. -/
theorem readLoop_spec (hbase : 0 < base) : ∀ (fuel : Nat) {npos i n : Nat} (buf : Bytes) {ba : ByteArray},
    Uniform base ba.nodes → ba.cur = some i → i < ba.nodes.length → npos < base → 0 < n →
    base * i + npos + n ≤ base * ba.nodes.length → ba.nodes.length ≤ fuel + i →
    ByteArray.readLoop fuel npos (base - npos) n buf ba =
      some (buf ++ (ba.nodes.flatten.drop (base * i + npos)).take n, { ba with
        cur := place base ba.nodes.length (base * i + npos + n)
        position := ba.position + n }) := by
  intro fuel
  induction fuel with
  | zero =>
    intro npos i n buf ba _ _ hi _ _ _ hfuel
    omega
  | succ fuel ih =>
    intro npos i n buf ba huni hcur hi hnpos hn hroom hfuel
    obtain ⟨block, hblock, hlen⟩ := exists_block huni hi
    rw [ByteArray.readLoop, if_neg (by omega)]
    rcases Nat.lt_or_ge (base - npos) n with hout | hin
    · have hmore : base * (i + 1) < base * ba.nodes.length := by
        rw [Nat.mul_succ]
        omega
      have hi' : i + 1 < ba.nodes.length := Nat.lt_of_mul_lt_mul_left hmore
      have hnext : ba.next = some (i + 1) := by rw [next_eq hbase hcur, place_next hbase, if_pos hi']
      have hfull : base * i + npos + (base - npos) = base * (i + 1) := by
        rw [Nat.mul_succ]
        omega
      obtain ⟨block₁, hblock₁, hlen₁⟩ := exists_block huni hi'
      rw [if_neg (by omega), copyOut_eq hcur hblock (by omega), Option.bind_eq_bind, Option.bind_some, hnext]
      -- the rest, from the next block on
      generalize hba₁ : ({ ba with position := ba.position + (base - npos), cur := some (i + 1) } : ByteArray) =
        ba₁
      have hnodes₁ : ba₁.nodes = ba.nodes := by rw [← hba₁]
      have hcur₁ : ba₁.cur = some (i + 1) := by rw [← hba₁]
      have hloop := ih (buf ++ (block.drop npos).take (base - npos))
          (n := n - (base - npos)) (by rw [hnodes₁]; exact huni) hcur₁
        (by rw [hnodes₁]; exact hi') hbase (by omega) (by rw [hnodes₁]; omega) (by rw [hnodes₁]; omega)
      dsimp only
      rw [node_eq hcur₁, hnodes₁, hblock₁, Option.bind_some, hlen₁]
      rw [Nat.sub_zero] at hloop
      have hsum : base - npos + (n - (base - npos)) = n := by omega
      rw [hloop, hnodes₁, ← hba₁, Nat.add_zero, ← hfull, List.append_assoc,
        ← huni.take_drop_flatten hblock (by omega), take_drop_append, Nat.add_assoc _ _ (n - (base - npos)), hsum]
      dsimp only
      rw [Nat.add_assoc, hsum]
    · rw [if_pos hin, copyOut_eq hcur hblock (by omega), Option.bind_eq_bind, Option.bind_some, node_eq hcur,
        hblock, Option.bind_some, hlen, advance_eq hbase hcur hi (by omega),
        huni.take_drop_flatten hblock (by omega)]

/-- A place behind the first block. -/
theorem place_succ {count pos : Nat} (hbase : 0 < base) (hle : base ≤ pos) :
    place base (count + 1) pos = (place base count (pos - base)).map (· + 1) := by
  obtain ⟨k, rfl⟩ : ∃ k, pos = base + k := ⟨pos - base, by omega⟩
  rw [Nat.add_sub_cancel_left, place, place, Nat.mul_succ, Nat.add_div_left _ hbase]
  by_cases hk : k < base * count
  · rw [if_pos (by omega), if_pos hk]
    rfl
  · rw [if_neg (by omega), if_neg hk]
    rfl

/-- **`setPosition` finds the block of the position.** -/
theorem seek_spec (hbase : 0 < base) : ∀ {nodes : List Bytes} {pos i : Nat}, Uniform base nodes → nodes ≠ [] →
    pos ≤ base * nodes.length →
    ByteArray.seek pos i nodes = some ((place base nodes.length pos).map (i + ·))
  | [], _, _, _, hne, _ => (hne rfl).elim
  | node :: rest, pos, i, huni, _, hle => by
    have hnode : node.length = base := huni node List.mem_cons_self
    have hrest : Uniform base rest := fun b hb => huni b (List.mem_cons_of_mem _ hb)
    rw [List.length_cons, Nat.mul_succ] at hle
    rw [ByteArray.seek, hnode, List.length_cons]
    split
    · rename_i hlt
      have hne : rest ≠ [] := by
        rintro rfl
        rw [List.length_nil, Nat.mul_zero] at hle
        omega
      rw [seek_spec hbase hrest hne (by omega), place_succ hbase (by omega), Option.map_map]
      congr 2
      funext k
      dsimp only [Function.comp]
      omega
    split
    · rename_i heq
      rw [place_succ hbase (by omega), heq, Nat.sub_self]
      cases rest with
      | nil => rfl
      | cons node' rest' =>
        have hpos : 0 < base * (node' :: rest').length := Nat.mul_pos hbase (Nat.succ_pos _)
        rw [if_neg (List.cons_ne_nil _ _), place, if_pos hpos, Nat.zero_div]
        rfl
    · rename_i hgt hne
      have hlt : pos < base := by omega
      have hplace : place base (rest.length + 1) (base * 0 + pos) = some 0 := place_block (Nat.succ_pos _) hlt
      rw [Nat.mul_zero, Nat.zero_add] at hplace
      rw [hplace]
      rfl

/-! ### The calls -/

/-- New nodes have the base size. -/
theorem uniform_newNodes (junk : Junk) (base count : Nat) :
    Uniform base ((List.range count).map (newNode junk base)) := by
  intro b hb
  obtain ⟨k, -, rfl⟩ := List.mem_map.1 hb
  rw [newNode, List.length_map, List.length_range]

/-- The constructor makes an empty buffer of one block. -/
theorem simulates_new (junk : Junk) (hbase : 0 < base) :
    Simulates base (.new junk base) ⟨newNode junk base 0, 0, 0⟩ where
  baseSize := rfl
  uniform := by simp [ByteArray.new, Uniform, newNode]
  nonempty := List.cons_ne_nil _ _
  bytes := List.append_nil _
  capacity := (Nat.mul_one base).symm
  position := rfl
  size := rfl
  position_le := Nat.le_refl _
  size_le := Nat.zero_le _
  cur := by simp [ByteArray.new, place, hbase]

/-- The flat array is as long as all blocks together. -/
theorem Simulates.length_bytes (h : Simulates base ba f) : f.bytes.length = base * ba.nodes.length := by
  rw [← h.bytes, h.uniform.length_flatten]

/-- The number of new blocks is the number that is missing. -/
theorem count_eq (hbase : 0 < base) (n : Nat) :
    n / base + (if n % base ≠ 0 then 1 else 0) = (n + base - 1) / base := by
  have hdiv := Nat.div_add_mod n base
  have hmod := Nat.mod_lt n hbase
  generalize n / base = q at hdiv
  generalize n % base = r at hdiv hmod
  symm
  rw [Nat.div_eq_iff hbase]
  subst hdiv
  split
  · rw [Nat.mul_comm (q + 1), Nat.mul_succ]
    omega
  · rw [Nat.mul_comm (q + 0), Nat.add_zero]
    omega

/-- **`addCapacity` makes room** for `n` bytes at the position, and only adds blocks. -/
theorem Simulates.addCapacity (h : Simulates base ba f) (hbase : 0 < base) (junk : Junk) {n : Nat} (hn : 0 < n) :
    Simulates base (ba.addCapacity junk n) { f with
      bytes := f.bytes ++ ((List.range (f.missing base n)).map (newNode junk base)).flatten } ∧
    f.position + n ≤ base * (ba.addCapacity junk n).nodes.length := by
  have hlen := h.length_bytes
  have hle := h.position_le
  have hsize := h.size_le
  have hold : ba.getCapacity = f.bytes.length - f.position := by
    rw [ByteArray.getCapacity, h.capacity, h.position, hlen]
  unfold ByteArray.addCapacity
  dsimp only
  rw [hold]
  split
  · rename_i hroom
    have hzero : f.missing base n = 0 := by
      rw [Flat.missing, Nat.sub_eq_zero_of_le hroom, Nat.zero_add, Nat.div_eq_of_lt (by omega)]
    rw [hzero]
    refine ⟨?_, by omega⟩
    simpa using h
  · rename_i hroom
    have hcount : f.missing base n = (n - (f.bytes.length - f.position)) / ba.baseSize +
        (if (n - (f.bytes.length - f.position)) % ba.baseSize ≠ 0 then 1 else 0) := by
      rw [h.baseSize, count_eq hbase]
      rfl
    have huni := uniform_newNodes junk base (f.missing base n)
    have hcountlen : ((List.range (f.missing base n)).map (newNode junk base)).length = f.missing base n := by
      rw [List.length_map, List.length_range]
    have hpos : 0 < f.missing base n := by
      rw [Flat.missing]
      exact Nat.div_pos (by omega) hbase
    have hmissing : n - (f.bytes.length - f.position) ≤ base * f.missing base n := by
      have := Nat.lt_mul_div_succ (n - (f.bytes.length - f.position) + base - 1) hbase
      rw [Nat.mul_succ] at this
      rw [Flat.missing]
      omega
    have hmul : base * (ba.nodes.length + f.missing base n) =
        base * ba.nodes.length + base * f.missing base n := Nat.mul_add _ _ _
    rw [← hcount, h.baseSize]
    refine ⟨⟨rfl, h.uniform.append huni, ?_, ?_, ?_, h.position, h.size, hle, ?_, ?_⟩, ?_⟩
    · simp [h.nonempty]
    · rw [List.flatten_append, h.bytes]
    · dsimp only
      rw [h.capacity, List.length_append, hcountlen, hmul, Nat.mul_comm base (f.missing base n)]
    · dsimp only
      rw [List.length_append]
      omega
    · dsimp only
      rw [List.length_append, hcountlen, h.position, if_pos hpos]
      split
      · rename_i hfull
        have hend : f.position = base * ba.nodes.length + 0 := by omega
        rw [hend, place_block (by omega) hbase]
      · rename_i hfree
        rw [h.cur, place, place, h.position, if_pos (by omega), if_pos (by omega)]
    · dsimp only
      rw [List.length_append, hcountlen, hmul]
      omega

/-- The block of the position, while there is room behind it. -/
theorem Simulates.block (h : Simulates base ba f) (hbase : 0 < base)
    (hlt : f.position < base * ba.nodes.length) :
    ∃ i block, ba.cur = some i ∧ i < ba.nodes.length ∧ ba.node = some block ∧ block.length = base ∧
      f.position = base * i + ba.position % ba.baseSize ∧ ba.position % ba.baseSize < base := by
  have hcur : ba.cur = some (f.position / base) := by
    rw [h.cur, place, h.position, if_pos hlt]
  have hi : f.position / base < ba.nodes.length := Nat.div_lt_of_lt_mul hlt
  obtain ⟨block, hblock, hlen⟩ := exists_block h.uniform hi
  refine ⟨_, block, hcur, hi, (node_eq hcur).trans hblock, hlen, ?_, ?_⟩
  · rw [h.position, h.baseSize]
    exact (Nat.div_add_mod f.position base).symm
  · rw [h.baseSize]
    exact Nat.mod_lt _ hbase

/-- **`write`** puts its bytes at the position. -/
theorem Simulates.write (h : Simulates base ba f) (hbase : 0 < base) (junk : Junk) (data : Bytes) :
    ∃ ba', ba.write junk data = some ba' ∧ Simulates base ba' (f.write base junk data) := by
  rw [ByteArray.write, Flat.write]
  split
  · exact ⟨ba, rfl, h⟩
  rename_i hne
  have hpos : 0 < data.length := List.length_pos_iff.2 hne
  obtain ⟨h₁, hroom⟩ := h.addCapacity hbase junk hpos
  dsimp only
  generalize ba.addCapacity junk data.length = ba₁ at h₁ hroom
  generalize f.bytes ++ ((List.range (f.missing base data.length)).map (newNode junk base)).flatten = room at h₁
  obtain ⟨i, block, hcur, hi, hnode, hlen, hplace, hnpos⟩ := h₁.block hbase (by dsimp only; omega)
  dsimp only at hplace
  obtain ⟨ba₂, hloop, hwrote⟩ := writeLoop_spec hbase ba₁.nodes.length h₁.uniform hcur hi hnpos hne
    (by omega) (by omega)
  rw [← hplace] at hwrote
  have hbytes := h₁.length_bytes
  have hle := h₁.position_le
  have hsize := h₁.size_le
  dsimp only at hbytes hle hsize
  -- the array when the loop ends
  have hpos₂ : ba₂.position = f.position + data.length := by rw [hwrote.eq, h₁.position]
  have hsize₂ : ba₂.size = f.size := by rw [hwrote.eq, h₁.size]
  have hlen₂ := hwrote.length
  refine ⟨{ ba₂ with size := if ba₂.size < ba₂.position then ba₂.position else ba₂.size }, ?_, ?_⟩
  · rw [hnode, Option.bind_eq_bind, Option.bind_some, hlen, hloop]
    rfl
  · refine ⟨?_, hwrote.uniform, ?_, ?_, ?_, hpos₂, ?_, Nat.le_max_right _ _, ?_, ?_⟩
    · rw [hwrote.eq]
      exact h₁.baseSize
    · intro hnil
      rw [hnil, List.length_nil] at hlen₂
      omega
    · rw [hwrote.flatten, h₁.bytes]
    · dsimp only
      rw [hlen₂, hwrote.eq]
      exact h₁.capacity
    · dsimp only
      rw [hpos₂, hsize₂]
      split <;> omega
    · dsimp only
      rw [length_splice (by omega)]
      omega
    · dsimp only
      rw [hlen₂, hpos₂, hwrote.eq]

/-- **`read`** takes the bytes at the position, or throws. -/
theorem Simulates.read (h : Simulates base ba f) (hbase : 0 < base) {n : Nat} (hn : 1 ≤ n) :
    ∃ ba', ba.read n = some ((f.read n).1, ba') ∧ Simulates base ba' (f.read n).2 ∧
      (∀ e, (f.read n).1 = .error e → ba' = ba) := by
  have hlen := h.length_bytes
  have hle := h.position_le
  have hsize := h.size_le
  rw [ByteArray.read, ByteArray.getReadSize, h.size, h.position, Flat.read]
  by_cases hshort : f.size < f.position + n
  · rw [if_pos (by omega), if_pos hshort]
    exact ⟨ba, rfl, h, fun _ _ => rfl⟩
  · rw [if_neg (by omega), if_neg hshort]
    obtain ⟨i, block, hcur, hi, hnode, hblen, hplace, hnpos⟩ := h.block hbase (by omega)
    rw [h.position] at hplace hnpos
    have hloop := readLoop_spec hbase ba.nodes.length [] (n := n) h.uniform hcur hi hnpos (by omega) (by omega)
      (by omega)
    rw [← hplace, List.nil_append, h.bytes] at hloop
    refine ⟨{ ba with cur := place base ba.nodes.length (f.position + n), position := f.position + n }, ?_, ?_, ?_⟩
    · rw [hnode, Option.bind_eq_bind, Option.bind_some, hblen, hloop, h.position]
      rfl
    · refine ⟨h.baseSize, h.uniform, h.nonempty, h.bytes, h.capacity, rfl, h.size, ?_, hsize, rfl⟩
      dsimp only
      omega
    · exact fun e he => by cases he

/-- **`setPosition`** moves the position, or throws. -/
theorem Simulates.setPosition (h : Simulates base ba f) (hbase : 0 < base) (pos : Nat) :
    ∃ r ba', ba.setPosition pos = some (r, ba') ∧ (r.map fun _ => []) = (f.setPosition pos).1 ∧
      Simulates base ba' (f.setPosition pos).2 ∧ (∀ e, (f.setPosition pos).1 = .error e → ba' = ba) := by
  have hlen := h.length_bytes
  have hsize := h.size_le
  rw [ByteArray.setPosition, h.capacity, ← hlen, h.size, Flat.setPosition]
  by_cases hout : f.bytes.length < pos
  · rw [if_pos hout, if_pos hout]
    exact ⟨_, ba, rfl, rfl, h, fun _ _ => rfl⟩
  · rw [if_neg hout, if_neg hout, seek_spec hbase h.uniform h.nonempty (by omega)]
    refine ⟨_, _, rfl, rfl, ?_, fun e he => by cases he⟩
    refine ⟨h.baseSize, h.uniform, h.nonempty, h.bytes, hlen, rfl, ?_, Nat.le_max_right _ _, ?_, ?_⟩
    · dsimp only
      split <;> omega
    · dsimp only
      omega
    · dsimp only
      cases place base ba.nodes.length pos with
      | none => rfl
      | some i => exact congrArg some (Nat.zero_add i)

/-- **`clear`** goes back to an empty first block. -/
theorem Simulates.clear (h : Simulates base ba f) (hbase : 0 < base) :
    ∃ ba', ba.clear = some ba' ∧ Simulates base ba' (f.clear base) := by
  obtain ⟨root, rest, hnodes⟩ := List.exists_cons_of_ne_nil h.nonempty
  have hroot : root.length = base := h.uniform root (by rw [hnodes]; exact List.mem_cons_self)
  have hbytes : f.bytes.take base = root := by
    rw [← h.bytes, hnodes, List.flatten_cons, ← hroot, List.take_left]
  rw [ByteArray.clear, hnodes]
  refine ⟨_, rfl, h.baseSize, ?_, List.cons_ne_nil _ _, ?_, ?_, rfl, rfl, Nat.le_refl _, Nat.zero_le _, ?_⟩
  · intro b hb
    rwa [List.mem_singleton.1 hb]
  · rw [Flat.clear, hbytes]
    exact List.append_nil _
  · exact h.baseSize.trans (Nat.mul_one base).symm
  · simp [place, hbase]

/-- **Every call answers as the flat buffer does**, and a call that throws changes nothing. -/
theorem Simulates.step (h : Simulates base ba f) (hbase : 0 < base) (op : Op) :
    ∃ ba', ba.step op = some ((f.step base op).1, ba') ∧ Simulates base ba' (f.step base op).2 ∧
      ∀ e, (f.step base op).1 = .error e → ba' = ba := by
  cases op with
  | write junk data =>
    obtain ⟨ba', heq, h'⟩ := h.write hbase junk data
    exact ⟨ba', by rw [ByteArray.step, heq]; rfl, h', fun e he => by cases he⟩
  | read n pos => exact h.read hbase pos
  | setPosition pos =>
    obtain ⟨r, ba', heq, hr, h', hthrow⟩ := h.setPosition hbase pos
    refine ⟨ba', ?_, h', hthrow⟩
    rw [ByteArray.step, heq, Option.map_some, hr]
    rfl
  | clear =>
    obtain ⟨ba', heq, h'⟩ := h.clear hbase
    exact ⟨ba', by rw [ByteArray.step, heq]; rfl, h', fun e he => by cases he⟩

/-- Every sequence of calls answers as on the flat buffer. -/
theorem Simulates.run (hbase : 0 < base) : ∀ (ops : List Op) {ba : ByteArray} {f : Flat}, Simulates base ba f →
    ∃ ba', ba.run ops = some ((f.run base ops).1, ba') ∧ Simulates base ba' (f.run base ops).2
  | [], ba, _, h => ⟨ba, rfl, h⟩
  | op :: ops, _, _, h => by
    obtain ⟨ba₁, hstep, h₁, -⟩ := h.step hbase op
    obtain ⟨ba', hrun, h'⟩ := Simulates.run hbase ops h₁
    refine ⟨ba', ?_, h'⟩
    rw [ByteArray.run, hstep, Option.bind_eq_bind, Option.bind_some]
    dsimp only
    rw [hrun]
    rfl

/-- **The byte array simulates a flat buffer.**  For every block size and every sequence of
calls, whatever the memory of new blocks holds: the calls have results (none follows a
null pointer), which are those of the flat buffer, and the blocks, the position, the
size and `m_cur` are those of the flat buffer; and a further call that throws leaves
everything as it is. -/
theorem byteArray_simulates_flat (base : Nat) (hbase : 1 ≤ base) (junk : Junk) (ops : List Op) :
    let f := Flat.run base ops ⟨newNode junk base 0, 0, 0⟩
    ∃ ba, (ByteArray.new junk base).run ops = some (f.1, ba) ∧ Simulates base ba f.2 ∧
      ∀ op, ∃ ba', ba.step op = some ((f.2.step base op).1, ba') ∧
        Simulates base ba' (f.2.step base op).2 ∧ ∀ e, (f.2.step base op).1 = .error e → ba' = ba := by
  obtain ⟨ba, hrun, h⟩ := Simulates.run hbase ops (simulates_new junk hbase)
  exact ⟨ba, hrun, h, fun op => h.step hbase op⟩

/-- `hello` over two blocks of four bytes, read back from the third byte on. -/
def helloOps : List Op :=
  [.write (fun _ _ => 7) (str "hello"), .setPosition 2, .read 3 (by decide), .read 1 (by decide), .setPosition 9]

/-- A run that writes `hello`, reads a part of it back and is refused twice. -/
theorem byteArray_simulates_flat_helloOps :
    ∃ ba, (ByteArray.new (fun _ _ => 0) 4).run helloOps =
        some ([.ok [], .ok [], .ok (str "llo"), .error "not enough length", .error "set_position out of range"],
          ba) ∧
      Simulates 4 ba ⟨str "hello" ++ [7, 7, 7], 5, 5⟩ := by
  obtain ⟨ba, hrun, h, -⟩ := byteArray_simulates_flat 4 (by decide) (fun _ _ => 0) helloOps
  exact ⟨ba, hrun, h⟩

end Buffer
end Wuchat
