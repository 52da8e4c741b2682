/-
# Strings behind their length

The calls for strings write the length and then the bytes, and read the length and then that
many bytes.  Two things can go wrong.  A length that does not fit its field is cut
off.  And an empty string is read with `read(&buf[0], 0)`, which looks at `*m_cur` before it
looks at the size: behind the last byte of the last block `m_cur` is null.

`strings_roundTrip_iff` says that nothing else goes wrong: strings come back exactly when every
length fits and it is not the case that the last string is empty and what was written
fills its blocks.
-/

import Mathlib.Algebra.GroupWithZero.Nat
import Wuchat.Buffer.Scalars

namespace Wuchat
namespace Buffer

open Foundation Streams

/-- How the length is written. -/
inductive StringKind
  | fix16
  | fix32
  | fix64
  | vint
  deriving DecidableEq, Repr

namespace StringKind

/-- The writer of a kind. -/
def write (junk junk' : Junk) (val : StdString) : StringKind → Use Unit
  | .fix16 => writeStringFix16 junk junk' val
  | .fix32 => writeStringFix32 junk junk' val
  | .fix64 => writeStringFix64 junk junk' val
  | .vint => writeStringVint junk junk' val

/-- The reader of a kind. -/
def read : StringKind → Use Bytes
  | .fix16 => readStringFix16
  | .fix32 => readStringFix32
  | .fix64 => readStringFix64
  | .vint => readStringVint

/-- The lengths that fit are below this. -/
def limit : StringKind → Nat
  | .fix16 => 2 ^ 16
  | .fix32 => 2 ^ 32
  | .fix64 => sizeMod
  | .vint => sizeMod

/-- The bytes a length takes. -/
def lengthSize (len : Nat) : StringKind → Nat
  | .fix16 => 2
  | .fix32 => 4
  | .fix64 => 8
  | .vint => Nat.log2 len / 7 + 1

/-- The bytes of all strings with their lengths. -/
def encodedSize (kind : StringKind) (vals : List StdString) : Nat :=
  (vals.map fun val => kind.lengthSize val.bytes.length + val.bytes.length).sum

end StringKind

/-- Write the strings; each write finds what it finds in new blocks. -/
def writeStrings (kind : StringKind) : (Nat → Junk) → List StdString → Use Unit
  | _, [] => pure ()
  | junk, val :: vals => do
    kind.write (junk 0) (junk 1) val
    writeStrings kind (fun i => junk (i + 2)) vals

/-- Read as many strings. -/
def readStrings (kind : StringKind) : Nat → Use (List Bytes)
  | 0 => pure []
  | n + 1 => do
    let val ← kind.read
    let vals ← readStrings kind n
    pure (val :: vals)

/-- The strings come back, nothing is left to read, and no call follows a null pointer. -/
def StringsRoundTrip (base : Nat) (junk : Junk) (little : Bool) (kind : StringKind) (junks : Nat → Junk)
    (vals : List StdString) : Prop :=
  ∃ s, (do
      setLittleEndian little
      writeStrings kind junks vals
      setPosition 0
      readStrings kind vals.length : Use (List Bytes)) (.new junk base) = some (.ok (vals.map (·.bytes)), s) ∧
    s.array.getReadSize = 0

/-! ### One string -/

section

variable {e : Endian} {base total n : Nat} {s : EndianArray} {rest bs : Bytes}

/-- One write, then another. -/
theorem Writes.bind {m m' : Use Unit} {bs cs : Bytes} (hm : Writes e m bs) (hm' : Writes e m' cs) :
    Writes e (do m; m') (bs ++ cs) := by
  intro base s data hbase he hfill
  obtain ⟨s₁, hm₁, he₁, hfill₁⟩ := hm base s data hbase he hfill
  obtain ⟨s₂, hm₂, he₂, hfill₂⟩ := hm' base s₁ _ hbase he₁ hfill₁
  rw [List.append_assoc] at hfill₂
  exact ⟨s₂, (Use.bind_ok hm₁).trans hm₂, he₂, hfill₂⟩

/-- The bytes of a length: what the writer puts before the string, and what the reader takes
before it reads the string. -/
structure LengthBytes (e : Endian) (kind : StringKind) (val : StdString) (bs : Bytes) : Prop where
  length : bs.length = kind.lengthSize val.bytes.length
  writes : ∀ junk junk', Writes e (kind.write junk junk' val) (bs ++ val.bytes)
  reads : ∀ (base total : Nat) (s : EndianArray) (rest : Bytes), 0 < base → s.endian = e →
    Rest base total s.array (bs ++ rest) →
    ∃ s', kind.read s = read (val.bytes.length % kind.limit) s' ∧ s'.endian = e ∧ Rest base total s'.array rest

/-- A reader of a length, and then of the string. -/
theorem Reads.then_read {α : Type} {m : Use α} {x : α} {f : α → Nat} (hm : Reads e m bs x) (hn : f x = n)
    (hbase : 0 < base) (he : s.endian = e) (hrest : Rest base total s.array (bs ++ rest)) :
    ∃ s', (do let len ← m; read (f len) : Use Bytes) s = read n s' ∧ s'.endian = e ∧ Rest base total s'.array rest := by
  obtain ⟨s', hm', he', hrest'⟩ := hm base total s rest hbase he hrest
  refine ⟨s', ?_, he', hrest'⟩
  rw [← hn]
  exact Use.bind_ok hm'

end

/-- **Every length has its bytes.** -/
theorem exists_lengthBytes (e : Endian) (kind : StringKind) (val : StdString) :
    ∃ bs, LengthBytes e kind val bs := by
  have hlt : val.bytes.length < sizeMod := val.length_lt
  cases kind with
  | fix16 =>
    refine ⟨fixBytes e 2 (UInt16.ofNat val.bytes.length).toNat, length_fixBytes, fun junk junk' => ?_, ?_⟩
    · exact (writes_writeFix junk).bind (writes_write junk' val.bytes)
    · intro base total s rest hbase he hrest
      have hreads := (reads_readFix (e := e) (v := (UInt16.ofNat val.bytes.length).toNat) (n := 2) (by decide)).map
        UInt16.ofNat rfl
      exact hreads.then_read (by simp [StringKind.limit]) hbase he hrest
  | fix32 =>
    refine ⟨fixBytes e 4 (UInt32.ofNat val.bytes.length).toNat, length_fixBytes, fun junk junk' => ?_, ?_⟩
    · exact (writes_writeFix junk).bind (writes_write junk' val.bytes)
    · intro base total s rest hbase he hrest
      have hreads := (reads_readFix (e := e) (v := (UInt32.ofNat val.bytes.length).toNat) (n := 4) (by decide)).map
        UInt32.ofNat rfl
      exact hreads.then_read (by simp [StringKind.limit]) hbase he hrest
  | fix64 =>
    refine ⟨fixBytes e 8 (UInt64.ofNat val.bytes.length).toNat, length_fixBytes, fun junk junk' => ?_, ?_⟩
    · exact (writes_writeFix junk).bind (writes_write junk' val.bytes)
    · intro base total s rest hbase he hrest
      have hreads := (reads_readFix (e := e) (v := (UInt64.ofNat val.bytes.length).toNat) (n := 8) (by decide)).map
        UInt64.ofNat rfl
      exact hreads.then_read (by simp [StringKind.limit, sizeMod]) hbase he hrest
  | vint =>
    have hval : (UInt64.ofNat val.bytes.length).toNat = val.bytes.length := by
      rw [UInt64.toNat_ofNat']
      exact Nat.mod_eq_of_lt hlt
    obtain ⟨bs, hlen, hwrites, hreads⟩ := uint64_codec e (UInt64.ofNat val.bytes.length)
    rw [hval] at hlen
    refine ⟨bs, hlen, fun junk junk' => (hwrites junk).bind (writes_write junk' val.bytes), ?_⟩
    intro base total s rest hbase he hrest
    exact hreads.then_read (by rw [hval, StringKind.limit, Nat.mod_eq_of_lt hlt]) hbase he hrest

/-- A length has at least a byte. -/
theorem StringKind.lengthSize_pos (kind : StringKind) (len : Nat) : 0 < kind.lengthSize len := by
  cases kind <;> simp [StringKind.lengthSize]

/-- A read gives as many bytes as it was asked for. -/
theorem read_length {base total n : Nat} {s s' : EndianArray} {rest bs : Bytes} (hbase : 0 < base)
    (hrest : Rest base total s.array rest) (h : read n s = some (.ok bs, s')) : bs.length = n := by
  rw [read] at h
  rcases Nat.eq_zero_or_pos n with rfl | hpos
  · rw [hrest.read_nothing hbase] at h
    split at h
    · cases h
    · cases h
      rfl
  · rcases Nat.lt_or_ge rest.length n with hshort | hlong
    · rw [hrest.read_short hshort] at h
      cases h
    · have hlen : (rest.take n).length = n := by
        rw [List.length_take]
        omega
      have hne : rest.take n ≠ [] := by
        rw [← List.length_pos_iff]
        omega
      rw [← List.take_append_drop n rest] at hrest
      obtain ⟨ba', hread, -⟩ := hrest.read hbase hne
      rw [hlen] at hread
      rw [hread] at h
      obtain ⟨heq, -⟩ := Prod.mk.inj (Option.some.inj h)
      cases heq
      exact hlen

/-! ### Lists of strings -/

/-- The bytes of a list of strings. -/
inductive StringsEncoded (e : Endian) (kind : StringKind) : List StdString → Bytes → Prop
  | nil : StringsEncoded e kind [] []
  | cons {val : StdString} {vals : List StdString} {bs cs : Bytes} :
      LengthBytes e kind val bs → StringsEncoded e kind vals cs →
      StringsEncoded e kind (val :: vals) (bs ++ (val.bytes ++ cs))

section

variable {e : Endian} {kind : StringKind} {vals : List StdString} {bs : Bytes}

/-- The bytes of some strings are as many as their encoded size. -/
theorem StringsEncoded.length (h : StringsEncoded e kind vals bs) : bs.length = kind.encodedSize vals := by
  induction h with
  | nil => rfl
  | cons hlen _ ih =>
    rw [List.length_append, List.length_append, ih, hlen.length, StringKind.encodedSize, StringKind.encodedSize,
      List.map_cons, List.sum_cons, Nat.add_assoc]

/-- Only an empty list takes no bytes. -/
theorem StringsEncoded.eq_nil_iff (h : StringsEncoded e kind vals bs) : bs = [] ↔ vals = [] := by
  cases h with
  | nil => simp
  | @cons val _ bs _ hlen _ =>
    have hpos : 0 < bs.length := by
      rw [hlen.length]
      exact kind.lengthSize_pos _
    have hne : bs ≠ [] := List.length_pos_iff.1 hpos
    simp [hne]

/-- **The writing side** appends the bytes of the strings. -/
theorem writeStrings_spec {base : Nat} (hbase : 0 < base) : ∀ (vals : List StdString) (junk : Nat → Junk)
    {s : EndianArray} {data : Bytes}, s.endian = e → Filled base s.array data →
    ∃ s' bs, writeStrings kind junk vals s = some (.ok (), s') ∧ s'.endian = e ∧
      StringsEncoded e kind vals bs ∧ Filled base s'.array (data ++ bs)
  | [], _, s, data, he, hfill => ⟨s, [], rfl, he, .nil, by rwa [List.append_nil]⟩
  | val :: vals, junk, s, data, he, hfill => by
    obtain ⟨bs, hlen⟩ := exists_lengthBytes e kind val
    obtain ⟨s₁, hwrite, he₁, hfill₁⟩ := hlen.writes (junk 0) (junk 1) base s data hbase he hfill
    obtain ⟨s', cs, hall, he', henc, hfill'⟩ := writeStrings_spec hbase vals (fun i => junk (i + 2)) he₁ hfill₁
    rw [List.append_assoc, List.append_assoc] at hfill'
    exact ⟨s', _, (Use.bind_ok hwrite).trans hall, he', .cons hlen henc, hfill'⟩

/-- A program that ends had a first part that ended. -/
theorem Use.of_bind_ok {α β : Type} {m : Use α} {f : α → Use β} {s s'' : EndianArray} {y : β}
    (h : (m >>= f) s = some (.ok y, s'')) : ∃ x s', m s = some (.ok x, s') ∧ f x s' = some (.ok y, s'') := by
  simp only [Bind.bind] at h
  cases hm : m s with
  | none => rw [hm] at h; cases h
  | some r =>
    obtain ⟨r, s'⟩ := r
    rw [hm] at h
    cases r with
    | error err => cases h
    | ok x => exact ⟨x, s', rfl, h⟩

/-- All strings are read when the first is and the others are. -/
theorem readStrings_succ {n : Nat} {s s' : EndianArray} {x : Bytes} {xs : List Bytes} :
    readStrings kind (n + 1) s = some (.ok (x :: xs), s') ↔
      ∃ s₁, kind.read s = some (.ok x, s₁) ∧ readStrings kind n s₁ = some (.ok xs, s') := by
  constructor
  · intro h
    obtain ⟨y, s₁, hread, h₁⟩ := Use.of_bind_ok h
    obtain ⟨ys, s₂, hall, h₂⟩ := Use.of_bind_ok h₁
    cases h₂
    exact ⟨s₁, hread, hall⟩
  · rintro ⟨s₁, hread, hall⟩
    have hlast : (do let vals ← readStrings kind n; pure (x :: vals) : Use (List Bytes)) s₁ =
        some (.ok (x :: xs), s') := Use.bind_ok hall
    exact (Use.bind_ok hread).trans hlast

/-- **What stands in the way of the first string**: a length that was cut off, or no block to look at. -/
theorem read_string_iff {base total : Nat} {s s₁ : EndianArray} {val : StdString} {cs : Bytes} (hbase : 0 < base)
    (htotal : 0 < total) (hread : kind.read s = read (val.bytes.length % kind.limit) s₁)
    (hrest : Rest base total s₁.array (val.bytes ++ cs)) :
    (∃ s₂, kind.read s = some (.ok val.bytes, s₂)) ↔
      val.bytes.length < kind.limit ∧ ¬ (val.bytes = [] ∧ cs = [] ∧ total % base = 0) := by
  have hlimit : 0 < kind.limit := by
    cases kind with
    | fix16 => decide
    | fix32 => decide
    | fix64 => decide
    | vint => decide
  rw [hread]
  constructor
  · rintro ⟨s₂, h⟩
    have hlen := read_length hbase hrest h
    have hlt : val.bytes.length < kind.limit := by
      rw [hlen]
      exact Nat.mod_lt _ hlimit
    refine ⟨hlt, ?_⟩
    rintro ⟨hnil, rfl, hmod⟩
    rw [hnil, List.append_nil] at hrest
    rw [hnil, List.length_nil, Nat.zero_mod, read, hrest.read_nothing hbase, if_pos ⟨rfl, htotal, hmod⟩] at h
    cases h
  · rintro ⟨hlt, hnot⟩
    rw [Nat.mod_eq_of_lt hlt]
    by_cases hnil : val.bytes = []
    · rw [hnil, List.nil_append] at hrest
      refine ⟨s₁, ?_⟩
      rw [hnil, List.length_nil, read, hrest.read_nothing hbase, if_neg fun hc => hnot ⟨hnil, hc.1, hc.2.2⟩]
      rfl
    · obtain ⟨ba', hread', -⟩ := hrest.read hbase hnil
      refine ⟨{ s₁ with array := ba' }, ?_⟩
      rw [read, hread']
      rfl

/-- What is left once the first string is read. -/
theorem rest_of_read {base total : Nat} {s s₂ : EndianArray} {bs cs : Bytes} (hbase : 0 < base)
    (hrest : Rest base total s.array (bs ++ cs)) (h : read bs.length s = some (.ok bs, s₂)) :
    s₂.endian = s.endian ∧ Rest base total s₂.array cs := by
  rw [read] at h
  by_cases hnil : bs = []
  · subst hnil
    rw [List.length_nil, hrest.read_nothing hbase] at h
    split at h
    · cases h
    · cases h
      exact ⟨rfl, hrest⟩
  · obtain ⟨ba', hread, hrest'⟩ := hrest.read hbase hnil
    rw [hread] at h
    cases h
    exact ⟨rfl, hrest'⟩

/-- **The reading side** gets the strings when every length fits and the last read finds a block. -/
theorem readStrings_iff {base total : Nat} (hbase : 0 < base) (henc : StringsEncoded e kind vals bs) :
    ∀ {s : EndianArray}, s.endian = e → Rest base total s.array bs → (vals ≠ [] → 0 < total) →
    ((∃ s', readStrings kind vals.length s = some (.ok (vals.map (·.bytes)), s') ∧ s'.array.getReadSize = 0) ↔
      (∀ val ∈ vals, val.bytes.length < kind.limit) ∧
        ¬ ((vals.map (·.bytes)).getLast? = some [] ∧ total % base = 0)) := by
  induction henc with
  | nil =>
    intro s _ hrest _
    have hnone : (∃ s', readStrings kind 0 s = some (.ok [], s') ∧ s'.array.getReadSize = 0) :=
      ⟨s, rfl, hrest.getReadSize⟩
    simpa using hnone
  | @cons val vals bs cs hlen henc ih =>
    intro s he hrest htotal
    have htotal := htotal (List.cons_ne_nil _ _)
    obtain ⟨s₁, hread, he₁, hrest₁⟩ := hlen.reads base total s _ hbase he hrest
    have hfirst := read_string_iff hbase htotal hread hrest₁
    rw [henc.eq_nil_iff] at hfirst
    -- the last string is the first one when there is no other
    have hlast : ((val :: vals).map (·.bytes)).getLast? = some [] ↔
        (val.bytes = [] ∧ vals = []) ∨ (vals.map (·.bytes)).getLast? = some [] := by
      cases vals with
      | nil => simp
      | cons val' vals => simp [List.getLast?_cons_cons]
    rw [hlast, List.forall_mem_cons, List.length_cons, List.map_cons]
    constructor
    · rintro ⟨s', hall, hdone⟩
      obtain ⟨s₂, hread₂, hall₂⟩ := readStrings_succ.1 hall
      obtain ⟨hlt, hnot⟩ := hfirst.1 ⟨s₂, hread₂⟩
      rw [hread, Nat.mod_eq_of_lt hlt] at hread₂
      obtain ⟨he₂, hrest₂⟩ := rest_of_read hbase hrest₁ hread₂
      obtain ⟨hlts, hnots⟩ := (ih (he₂.trans he₁) hrest₂ fun _ => htotal).1 ⟨s', hall₂, hdone⟩
      refine ⟨⟨hlt, hlts⟩, ?_⟩
      rintro ⟨⟨hnil, hnone⟩ | hsome, hmod⟩
      · exact hnot ⟨hnil, hnone, hmod⟩
      · exact hnots ⟨hsome, hmod⟩
    · rintro ⟨⟨hlt, hlts⟩, hnot⟩
      obtain ⟨s₂, hread₂⟩ := hfirst.2 ⟨hlt, fun hc => hnot ⟨.inl ⟨hc.1, hc.2.1⟩, hc.2.2⟩⟩
      have hread₁ := hread₂
      rw [hread, Nat.mod_eq_of_lt hlt] at hread₁
      obtain ⟨he₂, hrest₂⟩ := rest_of_read hbase hrest₁ hread₁
      obtain ⟨s', hall, hdone⟩ := (ih (he₂.trans he₁) hrest₂ fun _ => htotal).2
        ⟨hlts, fun hc => hnot ⟨.inr hc.1, hc.2⟩⟩
      exact ⟨s', readStrings_succ.2 ⟨s₂, hread₂, hall⟩, hdone⟩

end

/-- Once all strings are read, nothing is left. -/
theorem readStrings_done {e : Endian} {kind : StringKind} {vals : List StdString} {bs : Bytes} {base total : Nat}
    (hbase : 0 < base) (henc : StringsEncoded e kind vals bs) : ∀ {s s' : EndianArray}, s.endian = e →
    Rest base total s.array bs → (vals ≠ [] → 0 < total) →
    readStrings kind vals.length s = some (.ok (vals.map (·.bytes)), s') → s'.array.getReadSize = 0 := by
  induction henc with
  | nil =>
    intro s s' _ hrest _ h
    cases h
    exact hrest.getReadSize
  | @cons val vals bs cs hlen henc ih =>
    intro s s' he hrest htotal h
    have htotal := htotal (List.cons_ne_nil _ _)
    obtain ⟨s₁, hread, he₁, hrest₁⟩ := hlen.reads base total s _ hbase he hrest
    obtain ⟨s₂, hread₂, hall⟩ := readStrings_succ.1 h
    obtain ⟨hlt, -⟩ := (read_string_iff hbase htotal hread hrest₁).1 ⟨s₂, hread₂⟩
    rw [hread, Nat.mod_eq_of_lt hlt] at hread₂
    obtain ⟨he₂, hrest₂⟩ := rest_of_read hbase hrest₁ hread₂
    exact ih (he₂.trans he₁) hrest₂ (fun _ => htotal) hall

/-- The array when all strings are written and the position is back at the start. -/
theorem exists_written {base : Nat} (hbase : 0 < base) (junk : Junk) (little : Bool) (kind : StringKind)
    (junks : Nat → Junk) (vals : List StdString) :
    ∃ s bs, s.endian = orderOf little ∧ StringsEncoded (orderOf little) kind vals bs ∧
      Rest base bs.length s.array bs ∧ ∀ {α : Type} (m : Use α), (do
        setLittleEndian little
        writeStrings kind junks vals
        setPosition 0
        m : Use α) (.new junk base) = m s := by
  have hset : setLittleEndian little (.new junk base) = some (.ok (), ⟨.new junk base, orderOf little⟩) := rfl
  obtain ⟨s₁, bs, hwrite, he₁, henc, hfill⟩ := @writeStrings_spec (orderOf little) kind base hbase vals junks
    ⟨.new junk base, orderOf little⟩ [] rfl (filled_new hbase junk)
  rw [List.nil_append] at hfill
  obtain ⟨ba, hzero, hrest⟩ := hfill.setPosition_zero hbase
  have hzero' : setPosition 0 s₁ = some (.ok (), { s₁ with array := ba }) := by
    rw [setPosition, hzero]
    rfl
  exact ⟨{ s₁ with array := ba }, bs, he₁, henc, hrest, fun m =>
    (Use.bind_ok hset).trans ((Use.bind_ok hwrite).trans (Use.bind_ok hzero'))⟩

/-- **Strings come back exactly when** every length fits its field and it is not the case that
the last string is empty and all that was written fills its blocks. -/
theorem strings_roundTrip_iff (base : Nat) (hbase : 1 ≤ base) (junk : Junk) (little : Bool) (kind : StringKind)
    (junks : Nat → Junk) (vals : List StdString) :
    StringsRoundTrip base junk little kind junks vals ↔
      (∀ val ∈ vals, val.bytes.length < kind.limit) ∧
        ¬ ((vals.map (·.bytes)).getLast? = some [] ∧ kind.encodedSize vals % base = 0) := by
  obtain ⟨s, bs, he, henc, hrest, hrun⟩ := exists_written hbase junk little kind junks vals
  have htotal : vals ≠ [] → 0 < bs.length := fun hne =>
    List.length_pos_iff.2 fun hnil => hne (henc.eq_nil_iff.1 hnil)
  have hiff := readStrings_iff hbase henc he hrest htotal
  rw [henc.length] at hiff
  rw [StringsRoundTrip, hrun]
  exact hiff

/-- The empty string. -/
def emptyString : StdString := ⟨[], by decide⟩

/-- An empty string behind a length of one byte does not come back from blocks of one byte: its
reader follows the null pointer. -/
theorem not_stringsRoundTrip_empty :
    ¬ StringsRoundTrip 1 (fun _ _ => 0) false .vint (fun _ _ _ => 0) [emptyString] := by
  rintro ⟨s, hs, -⟩
  have hnone : (do
      setLittleEndian false
      writeStrings .vint (fun _ _ _ => 0) [emptyString]
      setPosition 0
      readStrings .vint 1 : Use (List Bytes)) (.new (fun _ _ => 0) 1) = none := by decide +kernel
  exact absurd (hnone.symm.trans hs) (by simp)

/-- Two strings, the last not empty, in blocks of one byte. -/
theorem strings_roundTrip_iff_ab :
    StringsRoundTrip 1 (fun _ _ => 0) false .fix32 (fun _ _ _ => 0) [emptyString, ⟨str "ab", by decide⟩] :=
  (strings_roundTrip_iff 1 (by decide) _ _ _ _ _).2 (by decide)

/-! ### Strings behind 16 bits of length -/

/-- The strings come back, or one of them is rejected and its write changes nothing. -/
def Fix16Framed (base : Nat) (junk : Junk) (little : Bool) (junks : Nat → Junk) (vals : List StdString) : Prop :=
  (∃ s, (do
      setLittleEndian little
      writeStrings .fix16 junks vals
      setPosition 0
      readStrings .fix16 vals.length : Use (List Bytes)) (.new junk base) = some (.ok (vals.map (·.bytes)), s)) ∨
  ∃ before val after s error, vals = before ++ val :: after ∧
    (do
      setLittleEndian little
      writeStrings .fix16 junks before : Use Unit) (.new junk base) = some (.ok (), s) ∧
    writeStringFix16 (junks (2 * before.length)) (junks (2 * before.length + 1)) val s = some (.error error, s)

/-- **No write rejects its string.** -/
theorem fix16Framed_iff_back {base : Nat} (hbase : 0 < base) (junk : Junk) (little : Bool) (junks : Nat → Junk)
    (vals : List StdString) : Fix16Framed base junk little junks vals ↔ ∃ s, (do
      setLittleEndian little
      writeStrings .fix16 junks vals
      setPosition 0
      readStrings .fix16 vals.length : Use (List Bytes)) (.new junk base) = some (.ok (vals.map (·.bytes)), s) := by
  refine ⟨fun h => h.resolve_right ?_, .inl⟩
  rintro ⟨before, val, after, s, error, -, hbefore, hval⟩
  have hset : setLittleEndian little (.new junk base) = some (.ok (), ⟨.new junk base, orderOf little⟩) := rfl
  obtain ⟨s₁, bs, hwrite, he₁, -, hfill⟩ := @writeStrings_spec (orderOf little) .fix16 base hbase before junks
    ⟨.new junk base, orderOf little⟩ [] rfl (filled_new hbase junk)
  rw [(Use.bind_ok hset).trans hwrite] at hbefore
  cases hbefore
  obtain ⟨cs, hlen⟩ := exists_lengthBytes (orderOf little) .fix16 val
  obtain ⟨s₂, hok, -⟩ := hlen.writes (junks (2 * before.length)) (junks (2 * before.length + 1)) base s _ hbase he₁
    hfill
  cases hok.symm.trans hval

/-- Strings that are read back under a 16-bit length are shorter than 2¹⁶. -/
theorem lengths_of_fix16Framed {base : Nat} (hbase : 0 < base) {junk : Junk} {little : Bool} {junks : Nat → Junk}
    {vals : List StdString} (h : Fix16Framed base junk little junks vals) :
    ∀ val ∈ vals, val.bytes.length < 2 ^ 16 := by
  obtain ⟨s', hback⟩ := (fix16Framed_iff_back hbase junk little junks vals).1 h
  obtain ⟨s, bs, he, henc, hrest, hrun⟩ := exists_written hbase junk little .fix16 junks vals
  have htotal : vals ≠ [] → 0 < bs.length := fun hne =>
    List.length_pos_iff.2 fun hnil => hne (henc.eq_nil_iff.1 hnil)
  rw [hrun] at hback
  exact ((readStrings_iff hbase henc he hrest htotal).1
    ⟨s', hback, readStrings_done hbase henc he hrest htotal hback⟩).1

/-- **Strings that are not empty come back from behind 16 bits of length exactly if they are shorter than `2^16`.** -/
theorem fix16_framed_iff (base : Nat) (hbase : 1 ≤ base) (junk : Junk) (little : Bool) (junks : Nat → Junk)
    (vals : List StdString) (hne : ∀ val ∈ vals, val.bytes ≠ []) :
    Fix16Framed base junk little junks vals ↔ ∀ val ∈ vals, val.bytes.length < 2 ^ 16 := by
  refine ⟨lengths_of_fix16Framed hbase, fun hlt => .inl ?_⟩
  obtain ⟨s, bs, he, henc, hrest, hrun⟩ := exists_written hbase junk little .fix16 junks vals
  have htotal : vals ≠ [] → 0 < bs.length := fun hne =>
    List.length_pos_iff.2 fun hnil => hne (henc.eq_nil_iff.1 hnil)
  have hlast : (vals.map (·.bytes)).getLast? ≠ some [] := by
    intro hlast
    obtain ⟨val, hval, hnil⟩ := List.mem_map.1 (List.mem_of_getLast? hlast)
    exact hne val hval hnil
  obtain ⟨s', hback, -⟩ := (readStrings_iff hbase henc he hrest htotal).2 ⟨hlt, fun h => hlast h.1⟩
  exact ⟨s', (hrun _).trans hback⟩

/-- The statement at two strings. -/
theorem fix16_framed_iff_two : Fix16Framed 1 (fun _ _ => 0) true (fun _ _ _ => 0)
    [⟨str "ab", by decide⟩, ⟨str "c", by decide⟩] :=
  (fix16_framed_iff 1 (by decide) _ _ _ _ (by decide)).2 (by decide)

/-- A string of `2^16` bytes. -/
def longString : StdString := ⟨List.replicate (2 ^ 16) 97, by rw [List.length_replicate]; decide⟩

/-- A string that is too long for its length by one. -/
theorem not_fix16Framed_long : ¬ Fix16Framed 4096 (fun _ _ => 0) true (fun _ _ _ => 0)
    [longString, ⟨str "ab", by decide⟩] := by
  intro h
  have hlt := lengths_of_fix16Framed (by decide) h longString List.mem_cons_self
  have hlen : longString.bytes.length = 2 ^ 16 := List.length_replicate
  omega

end Buffer
end Wuchat
