/-
# Reads that come up short

A typed call that finds too few bytes throws.  The calls of a fixed width do so before they
take anything.  The calls of variable length and the calls for strings take what is there
first: the bytes of a number that is not ended, or a length without its string.
`readers_atomic_iff` says when that happens (`Torn`).

`Takes` is what a call does with the bytes that can be read: the value and how many bytes it
takes, or how many it takes before it throws.  An allocation does not fail here: `resize`
has a string of every length.
-/

import Wuchat.Buffer.Strings
import Wuchat.Buffer.Parts

namespace Wuchat
namespace Buffer

open Foundation Streams

/-- A typed call that reads. -/
inductive Reader
  | scalar (kind : Kind)
  | string (kind : StringKind)
  deriving DecidableEq, Repr

/-- The call throws. -/
def Reader.Throws (s : EndianArray) (error : String) (s' : EndianArray) : Reader → Prop
  | .scalar kind => kind.read s = some (.error error, s')
  | .string kind => kind.read s = some (.error error, s')

/-- A call that throws leaves the array as it was. -/
def Reader.Atomic (r : Reader) (s : EndianArray) : Prop := ∀ error s', r.Throws s error s' → s' = s

/-! ### What a call takes -/

/-- What a call returns or throws, and the number of bytes it takes. -/
abbrev Taken (α : Type) := Except String α × Nat

namespace Taken

variable {α β : Type}

/-- A value computed from what was taken. -/
def map (g : α → β) (p : Taken α) : Taken β := (p.1.map g, p.2)

/-- One call after another, which gets the number of bytes taken before it. -/
def bind (p : Taken α) (q : α → Nat → Taken β) : Taken β :=
  match p with
  | (.ok x, k) => ((q x k).1, k + (q x k).2)
  | (.error error, k) => (.error error, k)

end Taken

/-- The position has moved on by `k`. -/
structure Skips (base : Nat) (f : Flat) (s : EndianArray) (k : Nat) (s' : EndianArray) : Prop where
  endian : s'.endian = s.endian
  simulates : Simulates base s'.array { f with position := f.position + k }
  eq_self : k = 0 → s' = s

variable {α β : Type} {base k l n : Nat} {s s' s'' : EndianArray} {e : Endian} {f : Flat}

/-- Nothing is skipped. -/
theorem skips_zero (h : Simulates base s.array f) : Skips base f s 0 s := ⟨rfl, h, fun _ => rfl⟩

/-- One skip, then another. -/
theorem Skips.trans (h : Skips base f s k s') (h' : Skips base { f with position := f.position + k } s' l s'') :
    Skips base f s (k + l) s'' := by
  refine ⟨h'.endian.trans h.endian, ?_, fun hzero => ?_⟩
  · rw [← Nat.add_assoc]
    exact h'.simulates
  · rw [h'.eq_self (by omega), h.eq_self (by omega)]

/-- How much can be read. -/
theorem Simulates.length_readable {ba : ByteArray} (h : Simulates base ba f) :
    ba.readable.length = f.size - f.position := by
  have hle := h.size_le
  rw [h.readable, List.length_drop, List.length_take]
  omega

/-- What is left to read behind the position. -/
theorem Skips.readable (h : Skips base f s k s') (hf : Simulates base s.array f) :
    s'.array.readable = s.array.readable.drop k := by
  rw [h.simulates.readable, hf.readable, List.drop_drop]

/-- **What a call does**, with the bytes that can be read. -/
def Takes (e : Endian) (m : Use α) (p : Bytes → Taken α) : Prop :=
  ∀ (base : Nat) (s : EndianArray) (f : Flat), 0 < base → s.endian = e → Simulates base s.array f →
    ∃ s', m s = some ((p s.array.readable).1, s') ∧ Skips base f s (p s.array.readable).2 s'

/-- A value is returned without a byte. -/
theorem takes_pure (x : α) : Takes e (pure x) fun _ => (.ok x, 0) := fun _ s _ _ _ hf => ⟨s, rfl, skips_zero hf⟩

/-- The byte order is known without a byte. -/
theorem takes_getEndian : Takes e getEndian fun _ => (.ok e, 0) := fun _ s _ _ he hf =>
  ⟨s, by rw [getEndian, he], skips_zero hf⟩

/-- A program stops where its first part throws. -/
theorem Use.bind_error {m : Use α} {g : α → Use β} {error : String} (h : m s = some (.error error, s')) :
    (m >>= g) s = some (.error error, s') := by
  simp only [Bind.bind, h]

/-- One reader, then another on what the first left. -/
theorem Takes.bind {m : Use α} {g : α → Use β} {p : Bytes → Taken α} {q : α → Bytes → Taken β}
    (hm : Takes e m p) (hg : ∀ x, Takes e (g x) (q x)) :
    Takes e (m >>= g) fun bs => (p bs).bind fun x k => q x (bs.drop k) := by
  intro base s f hbase he hf
  obtain ⟨s', hm', hskip⟩ := hm base s f hbase he hf
  dsimp only
  revert hm' hskip
  cases p s.array.readable with
  | mk r k =>
    intro hm' hskip
    cases r with
    | error error => exact ⟨s', Use.bind_error hm', hskip⟩
    | ok x =>
      obtain ⟨s'', hg', hskip'⟩ := hg x base s' _ hbase (hskip.endian.trans he) hskip.simulates
      rw [hskip.readable hf] at hg' hskip'
      exact ⟨s'', (Use.bind_ok hm').trans hg', hskip.trans hskip'⟩

/-- What is taken may be said in another way. -/
theorem Takes.congr {m : Use α} {p q : Bytes → Taken α} (hm : Takes e m p) (h : ∀ bs, p bs = q bs) : Takes e m q := by
  rw [← funext h]
  exact hm

/-- What is read may be converted. -/
theorem Takes.map {m : Use α} {p : Bytes → Taken α} (hm : Takes e m p) (g : α → β) :
    Takes e (do let v ← m; pure (g v)) fun bs => (p bs).map g := by
  refine (hm.bind fun x => takes_pure (g x)).congr fun bs => ?_
  cases p bs with
  | mk r k =>
    cases r with
    | ok x => rfl
    | error error => rfl

/-! ### The calls -/

/-- Of `n` bytes, all or none. -/
def takeBytes (n : Nat) (bs : Bytes) : Taken Bytes :=
  if bs.length < n then (.error "not enough length", 0) else (.ok (bs.take n), n)

/-- A read takes its bytes, or is refused. -/
theorem takes_read (hn : 0 < n) : Takes e (read n) (takeBytes n) := by
  intro base s f hbase _ hf
  obtain ⟨ba', hread, hsim, herr⟩ := hf.read hbase hn
  have hlen := hf.length_readable
  have hle := hf.position_le
  rw [Flat.read] at hread hsim herr
  rw [takeBytes, hlen]
  by_cases hshort : f.size < f.position + n
  · rw [if_pos (by omega)]
    rw [if_pos hshort] at hread herr
    rw [herr _ rfl] at hread
    exact ⟨s, by rw [read, hread]; rfl, skips_zero hf⟩
  · rw [if_neg (by omega)]
    rw [if_neg hshort] at hread hsim
    have hbytes : (f.bytes.drop f.position).take n = s.array.readable.take n := by
      rw [hf.readable, List.drop_take, List.take_take, Nat.min_eq_left (by omega)]
    rw [hbytes] at hread
    exact ⟨{ s with array := ba' }, by rw [read, hread]; rfl, rfl, hsim, fun hzero => by dsimp only at hzero; omega⟩

/-- The value of `n` bytes. -/
def fixValue (e : Endian) (n : Nat) (bs : Bytes) : Nat :=
  if e = byteOrder then leValue bs else byteSwap n (leValue bs)

/-- A fixed value is taken from its bytes. -/
theorem takes_readFix (hn : 0 < n) : Takes e (readFix n) fun bs => (takeBytes n bs).map (fixValue e n) := by
  have hlast : ∀ v : Bytes, Takes e (do
      let endian ← getEndian
      if endian = byteOrder then pure (leValue v) else pure (byteSwap n (leValue v)))
      fun _ => (.ok (fixValue e n v), 0) := by
    intro v
    refine (takes_getEndian.bind (q := fun x _ => (.ok (fixValue x n v), 0)) fun x => ?_).congr fun bs => rfl
    rw [fixValue]
    split
    · exact takes_pure _
    · exact takes_pure _
  refine ((takes_read hn).bind hlast).congr fun bs => ?_
  rw [takeBytes]
  split
  · rfl
  · rfl

/-- One byte. -/
def takeByte : Bytes → Taken UInt8
  | [] => (.error "not enough length", 0)
  | b :: _ => (.ok b, 1)

/-- So is a byte. -/
theorem takes_readFixUint8 : Takes e readFixUint8 takeByte := by
  refine ((takes_read Nat.one_pos).map fun v => UInt8.ofNat (leValue v)).congr fun bs => ?_
  cases bs with
  | nil => rfl
  | cons b bs =>
    have hb : UInt8.ofNat (leValue [b]) = b := by
      rw [leValue, leValue, Nat.mul_zero, Nat.add_zero, UInt8.ofNat_toNat]
    show (Except.ok (UInt8.ofNat (leValue [b])), 1) = takeByte (b :: bs)
    rw [hb, takeByte]

/-- The bytes of a number, for the loop's turns and what it has so far. -/
def takeVarint (width : Nat) : Nat → Nat → Nat → Bytes → Taken Nat
  | 0, _, result, _ => (.ok result, 0)
  | _ + 1, _, _, [] => (.error "not enough length", 0)
  | turns + 1, i, result, b :: bs =>
    if b < 0x80 then (.ok (result ||| b.toNat <<< i % 2 ^ width), 1)
    else
      let r := takeVarint width turns (i + 7) (result ||| (b.toNat &&& 0x7f) <<< i % 2 ^ width) bs
      (r.1, 1 + r.2)

/-- The loop of a varint takes its bytes one by one. -/
theorem takes_readVarintLoop (width : Nat) : ∀ turns i result,
    Takes e (readVarintLoop width turns i result) (takeVarint width turns i result)
  | 0, _, result => takes_pure result
  | turns + 1, i, result => by
    refine (takes_readFixUint8.bind (q := fun (b : UInt8) bs =>
      if b < 0x80 then (.ok (result ||| b.toNat <<< i % 2 ^ width), 0)
      else takeVarint width turns (i + 7) (result ||| (b.toNat &&& 0x7f) <<< i % 2 ^ width) bs) fun b => ?_).congr ?_
    · split
      · exact takes_pure _
      · exact takes_readVarintLoop width turns _ _
    · intro bs
      cases bs with
      | nil => rfl
      | cons b bs =>
        rw [takeByte, takeVarint, Taken.bind]
        dsimp only [List.drop_one, List.tail_cons]
        split
        · rfl
        · rfl

/-! ### What is lost -/

/-- The call throws and has taken something. -/
def Lost (r : Taken α) : Prop := (∃ error, r.1 = .error error) ∧ r.2 ≠ 0

/-- A conversion loses no byte. -/
theorem lost_map {r : Taken α} {g : α → β} : Lost (r.map g) ↔ Lost r := by
  obtain ⟨r, k⟩ := r
  cases r with
  | ok x => simp [Lost, Taken.map, Except.map]
  | error error => simp [Lost, Taken.map, Except.map]

/-- A refused read of bytes loses none. -/
theorem not_lost_takeBytes (bs : Bytes) : ¬ Lost (takeBytes n bs) := by
  rw [takeBytes]
  split
  · exact fun h => h.2 rfl
  · rintro ⟨⟨error, h⟩, -⟩
    cases h

/-- A number is begun and not ended. -/
def Unended (turns : Nat) (bs : Bytes) : Prop := bs ≠ [] ∧ bs.length < turns ∧ ∀ b ∈ bs, 0x80 ≤ b

/-- A varint is refused when the bytes end before it does. -/
theorem takeVarint_error {width : Nat} : ∀ {turns i result : Nat} {bs : Bytes},
    (∃ error, (takeVarint width turns i result bs).1 = .error error) ↔ bs.length < turns ∧ ∀ b ∈ bs, 0x80 ≤ b
  | 0, _, _, _ => by simp [takeVarint]
  | turns + 1, _, _, [] => by simp [takeVarint]
  | turns + 1, i, result, b :: bs => by
    rw [takeVarint, List.forall_mem_cons, List.length_cons, Nat.add_lt_add_iff_right]
    split
    · rename_i hlast
      refine iff_of_false (by rintro ⟨error, h⟩; cases h) fun h => ?_
      exact UInt8.not_lt.2 h.2.1 hlast
    · rename_i hmore
      rw [and_iff_right (UInt8.not_lt.1 hmore)]
      exact takeVarint_error

/-- A varint takes at least a byte when there is one. -/
theorem takeVarint_taken_pos {width turns i result : Nat} {b : UInt8} {bs : Bytes} :
    0 < (takeVarint width (turns + 1) i result (b :: bs)).2 := by
  rw [takeVarint]
  split
  · exact Nat.one_pos
  · exact Nat.lt_of_lt_of_le Nat.one_pos (Nat.le_add_right _ _)

/-- **What is begun and not ended is lost.** -/
theorem lost_takeVarint {width turns : Nat} (bs : Bytes) :
    Lost (takeVarint width (turns + 1) 0 0 bs) ↔ Unended (turns + 1) bs := by
  rw [Lost, takeVarint_error, Unended]
  cases bs with
  | nil => simp [takeVarint]
  | cons b bs =>
    have hpos := @takeVarint_taken_pos width turns 0 0 b bs
    rw [and_iff_left (Nat.pos_iff_ne_zero.1 hpos), and_iff_right (List.cons_ne_nil b bs)]

/-- A call that throws leaves the array alone exactly if the position is where it was. -/
theorem Skips.atomic_iff {m : Use α} {error : String} (hm : m s = some (.error error, s')) (hskip : Skips base f s k s')
    (hf : Simulates base s.array f) : (∀ error s', m s = some (.error error, s') → s' = s) ↔ k = 0 := by
  constructor
  · intro h
    have hpos := hskip.simulates.position
    rw [h error s' hm, hf.position] at hpos
    dsimp only at hpos
    omega
  · intro hzero error' s'' hs''
    rw [hm] at hs''
    cases hs''
    exact hskip.eq_self hzero

/-- **A call leaves the array alone when it throws**, unless it has taken something. -/
theorem Takes.atomic_iff {m : Use α} {p : Bytes → Taken α} (hm : Takes e m p) (hbase : 0 < base) (he : s.endian = e)
    (hf : Simulates base s.array f) :
    (∀ error s', m s = some (.error error, s') → s' = s) ↔ ¬ Lost (p s.array.readable) := by
  obtain ⟨s₁, hm₁, hskip⟩ := hm base s f hbase he hf
  revert hm₁ hskip
  cases p s.array.readable with
  | mk r k =>
    intro hm₁ hskip
    cases r with
    | error error =>
      rw [Skips.atomic_iff hm₁ hskip hf]
      simp [Lost]
    | ok x =>
      refine iff_of_true (fun error s' h => ?_) ?_
      · cases hm₁.symm.trans h
      · rintro ⟨⟨error, h⟩, -⟩
        cases h

/-! ### The readers -/

/-- The types whose numbers have a variable length, with the loop's turns. -/
def Kind.turns : Kind → Option Nat
  | .int32 | .uint32 => some 5
  | .int64 | .uint64 => some 10
  | _ => none

/-- The length in front of a string. -/
def StringKind.takeLength (e : Endian) : StringKind → Bytes → Taken Nat
  | .fix16, bs => (((takeBytes 2 bs).map (fixValue e 2)).map UInt16.ofNat).map UInt16.toNat
  | .fix32, bs => (((takeBytes 4 bs).map (fixValue e 4)).map UInt32.ofNat).map UInt32.toNat
  | .fix64, bs => (((takeBytes 8 bs).map (fixValue e 8)).map UInt64.ofNat).map UInt64.toNat
  | .vint, bs => ((takeVarint 64 10 0 0 bs).map UInt64.ofNat).map UInt64.toNat

/-- **What can be read ends inside what the call takes**, behind its first byte: in a number of variable length, or in
a string behind its length. -/
def Reader.Torn (e : Endian) (bs : Bytes) : Reader → Prop
  | .scalar kind => ∃ turns, kind.turns = some turns ∧ Unended turns bs
  | .string kind => (kind = .vint ∧ Unended 10 bs) ∨
      ∃ len k, kind.takeLength e bs = (.ok len, k) ∧ bs.length < k + len

/-- A refused fixed value loses none. -/
theorem not_lost_readFix (n : Nat) (g : Nat → α) (bs : Bytes) : ¬ Lost (((takeBytes n bs).map (fixValue e n)).map g) :=
  fun h => not_lost_takeBytes bs (lost_map.1 (lost_map.1 h))

/-- A 32-bit varint is taken in at most five turns. -/
theorem takes_readUint32 : Takes e readUint32 fun bs => (takeVarint 32 5 0 0 bs).map UInt32.ofNat :=
  Takes.map (takes_readVarintLoop 32 5 0 0) UInt32.ofNat

/-- A 64-bit varint is taken in at most ten. -/
theorem takes_readUint64 : Takes e readUint64 fun bs => (takeVarint 64 10 0 0 bs).map UInt64.ofNat :=
  Takes.map (takes_readVarintLoop 64 10 0 0) UInt64.ofNat

/-- **What the call for a type takes**, and when it loses something. -/
theorem Kind.exists_takes (e : Endian) (kind : Kind) : ∃ p, Takes e kind.read p ∧
    ∀ bs, Lost (p bs) ↔ ∃ turns, kind.turns = some turns ∧ Unended turns bs := by
  have hfix : ∀ {α : Type} {m : Use α} {p : Bytes → Taken α}, Takes e m p → (∀ bs, ¬ Lost (p bs)) →
      ∀ g : α → Scalar, ∃ p', Takes e (do let v ← m; pure (g v)) p' ∧
        ∀ bs, Lost (p' bs) ↔ ∃ turns, (none : Option Nat) = some turns ∧ Unended turns bs := by
    intro α m p hm hp g
    refine ⟨_, hm.map g, fun bs => ?_⟩
    rw [lost_map]
    exact iff_of_false (hp bs) (by simp)
  have hvar : ∀ {α : Type} {m : Use α} {p : Bytes → Taken α} {turns : Nat}, Takes e m p →
      (∀ bs, Lost (p bs) ↔ Unended turns bs) → ∀ g : α → Scalar, ∃ p', Takes e (do let v ← m; pure (g v)) p' ∧
        ∀ bs, Lost (p' bs) ↔ ∃ n, some turns = some n ∧ Unended n bs := by
    intro α m p turns hm hp g
    refine ⟨_, hm.map g, fun bs => ?_⟩
    rw [lost_map, hp]
    simp
  have h32 : ∀ {α : Type} (g : UInt32 → α) (bs : Bytes),
      Lost (((takeVarint 32 5 0 0 bs).map UInt32.ofNat).map g) ↔ Unended 5 bs := by
    intro α g bs
    rw [lost_map, lost_map, lost_takeVarint]
  have h64 : ∀ {α : Type} (g : UInt64 → α) (bs : Bytes),
      Lost (((takeVarint 64 10 0 0 bs).map UInt64.ofNat).map g) ↔ Unended 10 bs := by
    intro α g bs
    rw [lost_map, lost_map, lost_takeVarint]
  cases kind with
  | fixInt8 => exact hfix ((takes_read Nat.one_pos).map _) (fun bs h => not_lost_takeBytes bs (lost_map.1 h)) _
  | fixUint8 => exact hfix ((takes_read Nat.one_pos).map _) (fun bs h => not_lost_takeBytes bs (lost_map.1 h)) _
  | fixInt16 => exact hfix ((takes_readFix (by decide)).map _) (not_lost_readFix 2 _) _
  | fixUint16 => exact hfix ((takes_readFix (by decide)).map _) (not_lost_readFix 2 _) _
  | fixInt32 => exact hfix ((takes_readFix (by decide)).map _) (not_lost_readFix 4 _) _
  | fixUint32 => exact hfix ((takes_readFix (by decide)).map _) (not_lost_readFix 4 _) _
  | fixInt64 => exact hfix ((takes_readFix (by decide)).map _) (not_lost_readFix 8 _) _
  | fixUint64 => exact hfix ((takes_readFix (by decide)).map _) (not_lost_readFix 8 _) _
  | int32 => exact hvar (takes_readUint32.map _) (h32 _) _
  | uint32 => exact hvar takes_readUint32 (fun bs => by rw [lost_map, lost_takeVarint]) _
  | int64 => exact hvar (takes_readUint64.map _) (h64 _) _
  | uint64 => exact hvar takes_readUint64 (fun bs => by rw [lost_map, lost_takeVarint]) _
  | float => exact hfix ((takes_readFix (by decide)).map _) (not_lost_readFix 4 _) _
  | double => exact hfix ((takes_readFix (by decide)).map _) (not_lost_readFix 8 _) _

/-! ### Strings -/

/-- A call that returns has taken something. -/
def Gains (r : Taken α) : Prop := ∀ x, r.1 = .ok x → 0 < r.2

/-- A conversion gains as much. -/
theorem Gains.map {r : Taken α} (h : Gains r) (g : α → β) : Gains (r.map g) := by
  obtain ⟨r, k⟩ := r
  cases r with
  | ok x => exact fun _ _ => h x rfl
  | error error =>
    intro x hx
    cases hx

/-- A read of some bytes that succeeds takes one at least. -/
theorem gains_takeBytes (hn : 0 < n) (bs : Bytes) : Gains (takeBytes n bs) := by
  intro x hx
  rw [takeBytes] at hx ⊢
  split
  · rename_i hshort
    rw [if_pos hshort] at hx
    cases hx
  · exact hn

/-- So does a varint. -/
theorem gains_takeVarint {width turns : Nat} (bs : Bytes) : Gains (takeVarint width (turns + 1) 0 0 bs) := by
  cases bs with
  | nil =>
    intro x hx
    cases hx
  | cons b bs => exact fun _ _ => takeVarint_taken_pos

/-- A read of nothing throws nothing. -/
theorem read_zero_ne_error {error : String} : read 0 s ≠ some (.error error, s') := by
  intro h
  rw [read, ByteArray.read, if_neg (Nat.not_lt_zero _)] at h
  obtain ⟨r, hr, heq⟩ := Option.map_eq_some_iff.1 h
  rw [Option.bind_eq_bind, Option.bind_eq_some_iff] at hr
  obtain ⟨node, -, hr⟩ := hr
  rw [Option.bind_eq_bind, Option.bind_eq_some_iff] at hr
  obtain ⟨p, -, hp⟩ := hr
  cases hp
  cases heq

/-- **A length and then so many bytes**: a call that throws has lost something, unless it was the length it
could not take. -/
theorem Takes.atomic_then_read {m : Use α} {p : Bytes → Taken α} (g : α → Nat) (hm : Takes e m p)
    (hpos : ∀ bs, Gains (p bs)) (hbase : 0 < base) (he : s.endian = e)
    (hf : Simulates base s.array f) :
    (∀ error s', (do let len ← m; read (g len) : Use Bytes) s = some (.error error, s') → s' = s) ↔
      ¬ (Lost (p s.array.readable) ∨ ∃ len k, (p s.array.readable).map g = (.ok len, k) ∧
        s.array.readable.length < k + len) := by
  obtain ⟨s₁, hm₁, hskip⟩ := hm base s f hbase he hf
  have hpos := hpos s.array.readable
  revert hm₁ hskip hpos
  cases p s.array.readable with
  | mk r k =>
    intro hm₁ hskip hpos
    cases r with
    | error error =>
      rw [Skips.atomic_iff (Use.bind_error hm₁) hskip hf]
      simp [Lost, Taken.map, Except.map]
    | ok x =>
      have hk : 0 < k := hpos x rfl
      have hle := hskip.simulates.position_le
      have hlen := hf.length_readable
      have hrun : (do let len ← m; read (g len) : Use Bytes) s = read (g x) s₁ := Use.bind_ok hm₁
      have hleft : s₁.array.readable.length = s.array.readable.length - k := by
        rw [hskip.readable hf, List.length_drop]
      dsimp only at hle
      by_cases hshort : s.array.readable.length < k + g x
      · -- the string is cut off, and its length is gone
        obtain ⟨s₂, hread, hskip'⟩ := takes_read (e := e) (n := g x) (by omega) base s₁ _ hbase
          (hskip.endian.trans he) hskip.simulates
        rw [takeBytes, if_pos (by omega)] at hread hskip'
        rw [Skips.atomic_iff (hrun.trans hread) (hskip.trans hskip') hf]
        refine iff_of_false (by omega) fun h => h (.inr ⟨g x, k, rfl, hshort⟩)
      · refine iff_of_true (fun error s' h => ?_) ?_
        · rw [hrun] at h
          rcases Nat.eq_zero_or_pos (g x) with hzero | hn
          · rw [hzero] at h
            exact (read_zero_ne_error h).elim
          · obtain ⟨s₂, hread, -⟩ := takes_read (e := e) hn base s₁ _ hbase (hskip.endian.trans he) hskip.simulates
            rw [takeBytes, if_neg (by omega)] at hread
            cases hread.symm.trans h
        · rintro (⟨⟨error, h⟩, -⟩ | ⟨len, l, heq, hlt⟩)
          · cases h
          · cases heq
            exact hshort hlt

/-- **A call that throws leaves the array as it was, exactly if what can be read does not end inside what the call
takes, behind its first byte.** -/
theorem readers_atomic_iff (base : Nat) (hbase : 1 ≤ base) (s : EndianArray) (hs : ∃ f, Simulates base s.array f)
    (r : Reader) : r.Atomic s ↔ ¬ r.Torn s.endian s.array.readable := by
  obtain ⟨f, hf⟩ := hs
  cases r with
  | scalar kind =>
    obtain ⟨p, hp, hlost⟩ := kind.exists_takes s.endian
    rw [Reader.Torn, ← hlost]
    exact hp.atomic_iff hbase rfl hf
  | string kind =>
    have hgains : ∀ {α : Type} (n : Nat) (g : Nat → α) (bs : Bytes), 0 < n →
        Gains (((takeBytes n bs).map (fixValue s.endian n)).map g) := fun n g bs hn =>
      ((gains_takeBytes hn bs).map _).map _
    -- a length of fixed width is taken whole or not at all
    have hnever : ∀ {α : Type} (kind : StringKind) (n : Nat) (g : Nat → α), kind ≠ .vint →
        (Lost (((takeBytes n s.array.readable).map (fixValue s.endian n)).map g) ↔
          kind = .vint ∧ Unended 10 s.array.readable) := fun kind n g hkind =>
      iff_of_false (not_lost_readFix n g _) fun h => hkind h.1
    cases kind with
    | fix16 =>
      have h := Takes.atomic_then_read UInt16.toNat ((takes_readFix (n := 2) (by decide)).map UInt16.ofNat)
        (fun bs => hgains 2 _ bs (by decide)) hbase rfl hf
      exact h.trans (not_congr (or_congr (hnever .fix16 2 _ (by decide)) Iff.rfl))
    | fix32 =>
      have h := Takes.atomic_then_read UInt32.toNat ((takes_readFix (n := 4) (by decide)).map UInt32.ofNat)
        (fun bs => hgains 4 _ bs (by decide)) hbase rfl hf
      exact h.trans (not_congr (or_congr (hnever .fix32 4 _ (by decide)) Iff.rfl))
    | fix64 =>
      have h := Takes.atomic_then_read UInt64.toNat ((takes_readFix (n := 8) (by decide)).map UInt64.ofNat)
        (fun bs => hgains 8 _ bs (by decide)) hbase rfl hf
      exact h.trans (not_congr (or_congr (hnever .fix64 8 _ (by decide)) Iff.rfl))
    | vint =>
      have h := Takes.atomic_then_read UInt64.toNat takes_readUint64 (fun bs => (gains_takeVarint bs).map _)
          hbase rfl hf
      rw [lost_map, lost_takeVarint] at h
      exact h.trans (not_congr (or_congr (and_iff_right rfl).symm Iff.rfl))

/-- One byte of a length. -/
def halfLength : EndianArray := ⟨⟨4, 0, 4, 1, [[5, 0, 0, 0]], some 0⟩, .big⟩

/-- The statement at a string whose length is cut in half. -/
theorem readers_atomic_iff_halfLength : (Reader.string .fix16).Atomic halfLength := by
  have hsim : Simulates 4 halfLength.array ⟨[5, 0, 0, 0], 0, 1⟩ :=
    ⟨rfl, by simp [Uniform, halfLength], by decide, rfl, rfl, rfl, rfl, by decide, by decide, rfl⟩
  refine (readers_atomic_iff 4 (by decide) halfLength ⟨_, hsim⟩ _).2 ?_
  rintro (⟨hkind, -⟩ | ⟨len, k, htake, -⟩)
  · cases hkind
  · cases htake

/-- A length without its string: the call throws, and the length is gone. -/
theorem string_length_lost : ∃ s s', (do
      writeFixUint16 (fun _ _ => 0) 5
      setPosition 0 : Use Unit) (.new (fun _ _ => 0) 4) = some (.ok (), s) ∧
    (Reader.string .fix16).Throws s "not enough length" s' ∧ s.array.position = 0 ∧ s'.array.position = 2 :=
  ⟨_, _, rfl, rfl, rfl, rfl⟩

end Buffer
end Wuchat
