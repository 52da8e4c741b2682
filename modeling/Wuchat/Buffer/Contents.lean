/-
# Writing at the end and reading from the start

The use the typed calls make of a byte array: everything is written at the end
(`Filled`), the position goes back to the start, and everything is read in order (`Rest`).
Both say what the array holds as one piece of bytes; the blocks are hidden behind the
flat buffer.

The chain is never longer than what was written needs.  So `m_cur` is null, after the
last byte, exactly when what was written fills its blocks (`Rest.read_nothing`): a read of
no bytes there follows the null pointer.
-/

import Wuchat.Buffer.Flat

namespace Wuchat
namespace Buffer

open Foundation Streams

/-- The array holds `data`, in no more blocks than it needs, and the position is behind it. -/
structure Filled (base : Nat) (ba : ByteArray) (data : Bytes) : Prop where
  flat : ∃ f : Flat, Simulates base ba f ∧ f.position = f.size ∧ f.bytes.take f.size = data ∧
    f.bytes.length < max 1 f.size + base

/-- The array holds `total` bytes, in no more blocks than they need, of which `rest` is behind
the position. -/
structure Rest (base total : Nat) (ba : ByteArray) (rest : Bytes) : Prop where
  flat : ∃ f : Flat, Simulates base ba f ∧ f.size = total ∧ (f.bytes.take f.size).drop f.position = rest ∧
    f.bytes.length < max 1 f.size + base

variable {base total n : Nat} {ba : ByteArray} {data rest bs : Bytes}

/-- A new array is filled with nothing. -/
theorem filled_new (hbase : 0 < base) (junk : Junk) : Filled base (.new junk base) [] := by
  refine ⟨⟨newNode junk base 0, 0, 0⟩, simulates_new junk hbase, rfl, rfl, ?_⟩
  simp only [newNode, List.length_map, List.length_range]
  omega

/-- No more blocks are added than the data needs. -/
theorem missing_tight (hbase : 0 < base) {f : Flat} (hle : f.size ≤ f.bytes.length)
    (hpos : f.position = f.size) (htight : f.bytes.length < max 1 f.size + base) (hn : 0 < n) :
    f.bytes.length + base * f.missing base n < max 1 (f.size + n) + base := by
  rw [Flat.missing, hpos]
  rcases Nat.lt_or_ge (f.bytes.length - f.size) n with hlt | hge
  · have hdiv := Nat.mul_div_le (n - (f.bytes.length - f.size) + base - 1) base
    omega
  · have hzero : (n - (f.bytes.length - f.size) + base - 1) / base = 0 := Nat.div_eq_of_lt (by omega)
    rw [hzero]
    omega

/-- **A write at the end** appends. -/
theorem Filled.write (h : Filled base ba data) (hbase : 0 < base) (junk : Junk) (bs : Bytes) :
    ∃ ba', ba.write junk bs = some ba' ∧ Filled base ba' (data ++ bs) := by
  obtain ⟨f, hsim, hpos, htake, htight⟩ := h.flat
  obtain ⟨ba', hwrite, hsim'⟩ := hsim.write hbase junk bs
  refine ⟨ba', hwrite, ?_⟩
  by_cases hnil : bs = []
  · rw [Flat.write, if_pos hnil] at hsim'
    rw [hnil, List.append_nil]
    exact ⟨f, hsim', hpos, htake, htight⟩
  have hn : 0 < bs.length := List.length_pos_iff.2 hnil
  have hle := hsim.size_le
  have hmore := missing_tight hbase hle hpos htight hn
  -- the bytes with the new blocks
  have hroomlen : (((List.range (f.missing base bs.length)).map (newNode junk base)).flatten).length =
      base * f.missing base bs.length := by
    rw [(uniform_newNodes junk base _).length_flatten, List.length_map, List.length_range]
  rw [Flat.write, if_neg hnil] at hsim'
  dsimp only at hsim'
  have hsize' := hsim'.size_le
  refine ⟨_, hsim', ?_, ?_, ?_⟩
  · dsimp only
    omega
  · dsimp only
    have hmax : max f.size (f.position + bs.length) = f.size + bs.length := by omega
    have hlen : (f.bytes.take f.size ++ bs).length = f.size + bs.length := by
      rw [List.length_append, List.length_take]
      omega
    rw [hmax, splice, hpos, List.take_append_of_le_length hle, ← hlen, List.take_left, htake]
  · dsimp only at hsize' ⊢
    rw [splice, List.length_append, List.length_append, List.length_take, List.length_drop, List.length_append,
      hroomlen] at hsize' ⊢
    omega

/-- **Back to the start.** -/
theorem Filled.setPosition_zero (h : Filled base ba data) (hbase : 0 < base) :
    ∃ ba', ba.setPosition 0 = some (.ok (), ba') ∧ Rest base data.length ba' data := by
  obtain ⟨f, hsim, -, htake, htight⟩ := h.flat
  have hle := hsim.size_le
  obtain ⟨r, ba', hset, hr, hsim', -⟩ := hsim.setPosition hbase 0
  rw [Flat.setPosition, if_neg (Nat.not_lt_zero _)] at hr hsim'
  have hlen : data.length = f.size := by
    rw [← htake, List.length_take]
    omega
  refine ⟨ba', ?_, _, hsim', ?_, ?_, ?_⟩
  · rw [hset]
    cases r with
    | error e => cases hr
    | ok u => rfl
  · dsimp only
    omega
  · dsimp only
    rw [Nat.max_zero, List.drop_zero, htake]
  · dsimp only
    rwa [Nat.max_zero]

/-- `getReadSize()` counts what is behind the position. -/
theorem Rest.getReadSize (h : Rest base total ba rest) : ba.getReadSize = rest.length := by
  obtain ⟨f, hsim, -, hrest, -⟩ := h.flat
  have hle := hsim.size_le
  rw [ByteArray.getReadSize, hsim.size, hsim.position, ← hrest, List.length_drop, List.length_take]
  omega

/-- **A read** takes the bytes that come next. -/
theorem Rest.read (h : Rest base total ba (bs ++ rest)) (hbase : 0 < base) (hne : bs ≠ []) :
    ∃ ba', ba.read bs.length = some (.ok bs, ba') ∧ Rest base total ba' rest := by
  obtain ⟨f, hsim, hsize, hrest, htight⟩ := h.flat
  have hle := hsim.size_le
  have hposle := hsim.position_le
  have hlen := congrArg List.length hrest
  rw [List.length_drop, List.length_take, List.length_append] at hlen
  obtain ⟨ba', hread, hsim', -⟩ := hsim.read hbase (n := bs.length) (List.length_pos_iff.2 hne)
  rw [Flat.read, if_neg (by omega)] at hread hsim'
  have hbytes : (f.bytes.drop f.position).take bs.length = bs := by
    have hcut : (f.bytes.drop f.position).take bs.length = (bs ++ rest).take bs.length := by
      rw [← hrest, List.drop_take, List.take_take, Nat.min_eq_left (by omega)]
    rw [hcut, List.take_left]
  rw [hbytes] at hread
  refine ⟨ba', hread, _, hsim', hsize, ?_, htight⟩
  dsimp only
  rw [← List.drop_drop, hrest, List.drop_left]

/-- **A read of more than there is** throws. -/
theorem Rest.read_short (h : Rest base total ba rest) (hshort : rest.length < n) :
    ba.read n = some (.error "not enough length", ba) := by
  rw [ByteArray.read, h.getReadSize, if_pos hshort]

/-- **A read of no bytes** follows a null pointer when everything was read and fills its blocks,
and does nothing otherwise. -/
theorem Rest.read_nothing (h : Rest base total ba rest) (hbase : 0 < base) :
    ba.read 0 = if rest = [] ∧ 0 < total ∧ total % base = 0 then none else some (.ok [], ba) := by
  obtain ⟨f, hsim, rfl, hrest, htight⟩ := h.flat
  have hle := hsim.size_le
  have hposle := hsim.position_le
  have hlen := congrArg List.length hrest
  rw [List.length_drop, List.length_take] at hlen
  have hbytes := hsim.length_bytes
  rw [ByteArray.read, if_neg (Nat.not_lt_zero _)]
  -- the position is behind the last block exactly there
  have hnull : base * ba.nodes.length ≤ f.position ↔ rest = [] ∧ 0 < f.size ∧ f.size % base = 0 := by
    rw [← List.length_eq_zero_iff]
    have hcount : 0 < ba.nodes.length := List.length_pos_iff.2 hsim.nonempty
    have hone : base * 1 ≤ base * ba.nodes.length := Nat.mul_le_mul_left base hcount
    constructor
    · intro hend
      have hfull : f.size = base * ba.nodes.length := by omega
      refine ⟨by omega, by omega, ?_⟩
      rw [hfull, Nat.mul_mod_right]
    · rintro ⟨hnil, hpos, hmod⟩
      have hdvd : base ∣ f.size := Nat.dvd_of_mod_eq_zero hmod
      have hgap : base ∣ f.bytes.length - f.size := Nat.dvd_sub (hbytes ▸ Nat.dvd_mul_right _ _) hdvd
      have hzero : f.bytes.length - f.size = 0 := Nat.eq_zero_of_dvd_of_lt hgap (by omega)
      omega
  by_cases hend : base * ba.nodes.length ≤ f.position
  · have hcur : ba.cur = none := by rw [hsim.cur, place, hsim.position, if_neg (by omega)]
    rw [if_pos (hnull.1 hend), ByteArray.node, hcur]
    rfl
  · rw [if_neg fun hc => hend (hnull.2 hc)]
    obtain ⟨i, block, hcur, hi, hnode, -⟩ := hsim.block hbase (by omega)
    rw [hnode, Option.bind_eq_bind, Option.bind_some]
    obtain ⟨k, hk⟩ : ∃ k, ba.nodes.length = k + 1 := ⟨ba.nodes.length - 1, by omega⟩
    rw [hk, ByteArray.readLoop]
    rfl

end Buffer
end Wuchat
