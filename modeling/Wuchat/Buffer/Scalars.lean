/-
# Scalars come back

What the typed calls write and read.  `Writes` and `Reads` say what a program appends to the
array, and what it takes from the front of what is left.  Each pair of calls has one encoding,
which its writer writes and its reader reads under the same byte order (`Scalar.codec`); lists
of calls follow (`scalars_roundTrip`).
-/

import Wuchat.Buffer.Contents
import Wuchat.Buffer.Typed

namespace Wuchat
namespace Buffer

open Foundation Streams

/-! ### What programs write and read -/

/-- The program appends `bs` to the array. -/
def Writes (e : Endian) (m : Use Unit) (bs : Bytes) : Prop :=
  ∀ (base : Nat) (s : EndianArray) (data : Bytes), 0 < base → s.endian = e → Filled base s.array data →
    ∃ s', m s = some (.ok (), s') ∧ s'.endian = e ∧ Filled base s'.array (data ++ bs)

/-- The program takes `bs` from the front of what is left, and returns `x`. -/
def Reads {α : Type} (e : Endian) (m : Use α) (bs : Bytes) (x : α) : Prop :=
  ∀ (base total : Nat) (s : EndianArray) (rest : Bytes), 0 < base → s.endian = e →
    Rest base total s.array (bs ++ rest) →
    ∃ s', m s = some (.ok x, s') ∧ s'.endian = e ∧ Rest base total s'.array rest

section

variable {α β : Type} {e : Endian} {s s' : EndianArray} {bs cs : Bytes}

/-- A program goes on from where the one before it ended. -/
theorem Use.bind_ok {m : Use α} {f : α → Use β} {x : α} (h : m s = some (.ok x, s')) : (m >>= f) s = f x s' := by
  simp only [Bind.bind, h]

/-- A value is returned without a byte. -/
theorem reads_pure (x : α) : Reads e (pure x) [] x := fun _ _ s _ _ he hrest => ⟨s, rfl, he, hrest⟩

/-- One read, then another. -/
theorem Reads.bind {m : Use α} {f : α → Use β} {x : α} {y : β} (hm : Reads e m bs x) (hf : Reads e (f x) cs y) :
    Reads e (m >>= f) (bs ++ cs) y := by
  intro base total s rest hbase he hrest
  rw [List.append_assoc] at hrest
  obtain ⟨s₁, hm₁, he₁, hrest₁⟩ := hm base total s _ hbase he hrest
  obtain ⟨s₂, hf₂, he₂, hrest₂⟩ := hf base total s₁ rest hbase he₁ hrest₁
  exact ⟨s₂, (Use.bind_ok hm₁).trans hf₂, he₂, hrest₂⟩

/-- A value computed from what was read. -/
theorem Reads.map {m : Use α} {x : α} {y : β} (hm : Reads e m bs x) (g : α → β) (hg : g x = y) :
    Reads e (do let v ← m; pure (g v)) bs y := by
  have h : Reads e (m >>= fun v => pure (g v)) (bs ++ []) y := hm.bind (by rw [hg]; exact reads_pure y)
  rwa [List.append_nil] at h

/-- A write writes its bytes. -/
theorem writes_write (junk : Junk) (bs : Bytes) : Writes e (write junk bs) bs := by
  intro base s data hbase he hfill
  obtain ⟨ba', hwrite, hfill'⟩ := hfill.write hbase junk bs
  exact ⟨{ s with array := ba' }, by rw [write, hwrite]; rfl, he, hfill'⟩

/-- A read of some bytes gets them. -/
theorem reads_read (hne : bs ≠ []) : Reads e (read bs.length) bs bs := by
  intro base total s rest hbase he hrest
  obtain ⟨ba', hread, hrest'⟩ := hrest.read hbase hne
  exact ⟨{ s with array := ba' }, by rw [read, hread]; rfl, he, hrest'⟩

/-- The byte order is known without a byte. -/
theorem reads_getEndian : Reads e getEndian [] e := fun _ _ s _ _ he hrest =>
  ⟨s, by rw [getEndian, he], he, hrest⟩

end

/-! ### The encodings -/

/-- The bytes of a value of fixed width. -/
def fixBytes (e : Endian) (n val : Nat) : Bytes := leBytes n (if e ≠ byteOrder then byteSwap n val else val)

section

variable {e : Endian} {n v : Nat}

/-- A fixed value has as many bytes as its width. -/
theorem length_fixBytes : (fixBytes e n v).length = n := length_leBytes _ _

/-- So it has some. -/
theorem fixBytes_ne_nil (hn : 0 < n) : fixBytes e n v ≠ [] := by
  rw [← List.length_pos_iff, length_fixBytes]
  exact hn

/-- A fixed value is written in the current byte order. -/
theorem writes_writeFix (junk : Junk) : Writes e (writeFix junk n v) (fixBytes e n v) := by
  intro base s data hbase he hfill
  have hget : getEndian s = some (.ok e, s) := by rw [getEndian, he]
  obtain ⟨s', hwrite, he', hfill'⟩ := writes_write junk (fixBytes e n v) base s data hbase he hfill
  exact ⟨s', (Use.bind_ok hget).trans hwrite, he', hfill'⟩

/-- **Under the same byte order a value comes back**, modulo its width. -/
theorem reads_readFix (hn : 0 < n) : Reads e (readFix n) (fixBytes e n v) (v % 256 ^ n) := by
  have hread : Reads e (read n) (fixBytes e n v) (fixBytes e n v) := by
    have h := reads_read (e := e) (fixBytes_ne_nil (e := e) (v := v) hn)
    rwa [length_fixBytes] at h
  have hlast : Reads e (if e = byteOrder then pure (leValue (fixBytes e n v))
      else pure (byteSwap n (leValue (fixBytes e n v)))) [] (v % 256 ^ n) := by
    rw [fixBytes]
    by_cases he : e = byteOrder
    · rw [if_pos he, if_neg (not_not_intro he), leValue_leBytes]
      exact reads_pure _
    · have hlt : byteSwap n v < 256 ^ n := by
        have h := leValue_lt (leBytes n v).reverse
        rwa [List.length_reverse, length_leBytes] at h
      rw [if_neg he, if_pos he, leValue_leBytes, Nat.mod_eq_of_lt hlt, byteSwap_byteSwap]
      exact reads_pure _
  have hswap : Reads e (do
      let endian ← getEndian
      if endian = byteOrder then pure (leValue (fixBytes e n v))
        else pure (byteSwap n (leValue (fixBytes e n v)))) [] (v % 256 ^ n) := reads_getEndian.bind hlast
  have h := hread.bind (f := fun v => do
    let endian ← getEndian
    if endian = byteOrder then pure (leValue v) else pure (byteSwap n (leValue v))) hswap
  rwa [List.append_nil] at h

/-- One byte is read as it is. -/
theorem reads_readFixUint8 (b : UInt8) : Reads e readFixUint8 [b] b := by
  refine (reads_read (List.cons_ne_nil b [])).map (fun v => UInt8.ofNat (leValue v)) ?_
  rw [leValue, leValue, Nat.mul_zero, Nat.add_zero, UInt8.ofNat_toNat]

end

/-! ### Integers of variable length -/

/-- A varint is written as its groups of seven bits. -/
theorem writes_writeVarint {e : Endian} {room v : Nat} {bs : Bytes} (junk : Junk)
    (h : varintBytes room v = some bs) : Writes e (writeVarint junk room v) bs := by
  intro base s data hbase he hfill
  rw [writeVarint, h]
  exact writes_write junk bs base s data hbase he hfill

/-- One turn of the reader's loop, on a byte that is not the last. -/
theorem reads_readVarintLoop_more {e : Endian} {width turns i v result y : Nat} {bs : Bytes}
    (hresult : result < 2 ^ i) (hfit : v * 2 ^ i < 2 ^ width)
    (hrest : Reads e (readVarintLoop width turns (i + 7) (v % 128 * 2 ^ i + result)) bs y) :
    Reads e (readVarintLoop width (turns + 1) i result) (UInt8.ofNat (v &&& 0x7f ||| 0x80) :: bs) y := by
  have hlow : v % 128 * 2 ^ i < 2 ^ width :=
    Nat.lt_of_le_of_lt (Nat.mul_le_mul_right _ (Nat.mod_le v 128)) hfit
  refine (reads_readFixUint8 _).bind ?_
  have hmore : ¬ UInt8.ofNat (v &&& 0x7f ||| 0x80) < 0x80 := by
    rw [UInt8.lt_iff_toNat_lt, toNat_more]
    exact Nat.not_lt.2 (Nat.le_add_right 128 _)
  rw [if_neg hmore, toNat_more, and_low_more, varint_add hresult hlow]
  exact hrest

/-- The last turn of the reader's loop. -/
theorem reads_readVarintLoop_last {e : Endian} {width turns i v result : Nat} (hv : v < 0x80)
    (hresult : result < 2 ^ i) (hfit : v * 2 ^ i < 2 ^ width) :
    Reads e (readVarintLoop width (turns + 1) i result) [UInt8.ofNat v] (v * 2 ^ i + result) := by
  have hb : (UInt8.ofNat v).toNat = v := by
    rw [UInt8.toNat_ofNat']
    omega
  have h : Reads e (readVarintLoop width (turns + 1) i result) ([UInt8.ofNat v] ++ []) (v * 2 ^ i + result) := by
    refine (reads_readFixUint8 (UInt8.ofNat v)).bind ?_
    rw [if_pos (by rw [UInt8.lt_iff_toNat_lt, hb]; exact hv), hb, varint_add hresult hfit]
    exact reads_pure _
  rwa [List.append_nil] at h

/-- **The loop of the reader** takes what the writer wrote, and puts it above the bits it has. -/
theorem reads_readVarintLoop {e : Endian} {width : Nat} : ∀ {turns room i v result : Nat} {bs : Bytes},
    varintBytes room v = some bs → result < 2 ^ i → v * 2 ^ i < 2 ^ width → i < width → width ≤ i + 7 * turns →
    Reads e (readVarintLoop width turns i result) bs (v * 2 ^ i + result)
  | 0, _, _, _, _, _, _, _, _, hi, hturns => by omega
  | turns + 1, 0, _, _, _, _, hbs, _, _, _, _ => by cases hbs
  | turns + 1, room + 1, i, v, result, bs, hbs, hresult, hfit, hi, hturns => by
    rw [varintBytes] at hbs
    split at hbs
    · rename_i hge
      obtain ⟨more, hmore, rfl⟩ := Option.map_eq_some_iff.1 hbs
      rw [Nat.shiftRight_eq_div_pow] at hmore
      have hpow : 2 ^ (i + 7) = 128 * 2 ^ i := by
        rw [Nat.pow_add, Nat.mul_comm]
      have hsplit : v / 2 ^ 7 * 2 ^ (i + 7) + v % 128 * 2 ^ i = v * 2 ^ i := by
        rw [hpow, ← Nat.mul_assoc, ← Nat.add_mul, Nat.mul_comm (v / 2 ^ 7)]
        congr 1
        exact Nat.div_add_mod v 128
      have hfit' : v / 2 ^ 7 * 2 ^ (i + 7) < 2 ^ width := by omega
      have hresult' : v % 128 * 2 ^ i + result < 2 ^ (i + 7) := by
        have hle : v % 128 * 2 ^ i ≤ 127 * 2 ^ i := Nat.mul_le_mul_right _ (by omega)
        omega
      -- there are bits above these seven, so the loop has another turn
      have hi' : i + 7 < width := by
        have hone : 1 * 2 ^ (i + 7) ≤ v / 2 ^ 7 * 2 ^ (i + 7) := Nat.mul_le_mul_right _ (by omega)
        exact (Nat.pow_lt_pow_iff_right (a := 2) (by omega)).1 (by omega)
      have ih := @reads_readVarintLoop e width turns room _ _ _ _ hmore hresult' hfit' hi' (by omega)
      rw [← Nat.add_assoc, hsplit] at ih
      exact reads_readVarintLoop_more hresult hfit ih
    · rename_i hlt
      obtain rfl := Option.some.inj hbs
      exact reads_readVarintLoop_last (by omega) hresult hfit

/-- **A value below the width comes back.** -/
theorem reads_readVarint {e : Endian} {width room v : Nat} {bs : Bytes} (hwidth : 0 < width)
    (hv : v < 2 ^ width) (hbs : varintBytes room v = some bs) : Reads e (readVarint width) bs v := by
  have h := @reads_readVarintLoop e width ((width + 6) / 7) room 0 v 0 bs hbs
    (Nat.two_pow_pos 0) (by rwa [Nat.pow_zero, Nat.mul_one]) hwidth (by omega)
  rwa [Nat.pow_zero, Nat.mul_one, Nat.add_zero] at h

/-- `EncodeZigzag32` and `EncodeZigzag64` fold their values. -/
theorem toBitVec_encodeZigzag32 (val : Int32) : (encodeZigzag32 val).toBitVec = zigzag val.toBitVec := by
  have hneg : val.toBitVec.slt 0#32 = true ↔ val < 0 := Iff.rfl
  simp only [encodeZigzag32, zigzag, hneg]
  split
  · rfl
  · rfl

/-- The zigzag number of a 64-bit value, in bits. -/
theorem toBitVec_encodeZigzag64 (val : Int64) : (encodeZigzag64 val).toBitVec = zigzag val.toBitVec := by
  have hneg : val.toBitVec.slt 0#64 = true ↔ val < 0 := Iff.rfl
  simp only [encodeZigzag64, zigzag, hneg]
  split
  · rfl
  · rfl

/-- `DecodeZigzag32` undoes `EncodeZigzag32`. -/
theorem decodeZigzag32_encodeZigzag32 (val : Int32) : decodeZigzag32 (encodeZigzag32 val) = val := by
  have hback : (decodeZigzag32 (encodeZigzag32 val)).toBitVec = unzigzag (encodeZigzag32 val).toBitVec := rfl
  rw [toBitVec_encodeZigzag32, unzigzag_zigzag (by decide)] at hback
  exact Int32.toBitVec.inj hback

/-- `DecodeZigzag64` undoes `EncodeZigzag64`. -/
theorem decodeZigzag64_encodeZigzag64 (val : Int64) : decodeZigzag64 (encodeZigzag64 val) = val := by
  have hback : (decodeZigzag64 (encodeZigzag64 val)).toBitVec = unzigzag (encodeZigzag64 val).toBitVec := rfl
  rw [toBitVec_encodeZigzag64, unzigzag_zigzag (by decide)] at hback
  exact Int64.toBitVec.inj hback

example : [0, -1, 1, -2147483648].map encodeZigzag32 = [0, 1, 2, 4294967295] := by decide

/-! ### Lists of values -/

/-- A value with the type it is written as. -/
inductive Scalar
  | fixInt8 (val : Int8)
  | fixUint8 (val : UInt8)
  | fixInt16 (val : Int16)
  | fixUint16 (val : UInt16)
  | fixInt32 (val : Int32)
  | fixUint32 (val : UInt32)
  | fixInt64 (val : Int64)
  | fixUint64 (val : UInt64)
  | int32 (val : Int32)
  | uint32 (val : UInt32)
  | int64 (val : Int64)
  | uint64 (val : UInt64)
  | float (bits : UInt32)
  | double (bits : UInt64)
  deriving DecidableEq, Repr

/-- The types. -/
inductive Kind
  | fixInt8
  | fixUint8
  | fixInt16
  | fixUint16
  | fixInt32
  | fixUint32
  | fixInt64
  | fixUint64
  | int32
  | uint32
  | int64
  | uint64
  | float
  | double
  deriving DecidableEq, Repr

namespace Scalar

/-- The kind of a value. -/
def kind : Scalar → Kind
  | .fixInt8 _ => .fixInt8
  | .fixUint8 _ => .fixUint8
  | .fixInt16 _ => .fixInt16
  | .fixUint16 _ => .fixUint16
  | .fixInt32 _ => .fixInt32
  | .fixUint32 _ => .fixUint32
  | .fixInt64 _ => .fixInt64
  | .fixUint64 _ => .fixUint64
  | .int32 _ => .int32
  | .uint32 _ => .uint32
  | .int64 _ => .int64
  | .uint64 _ => .uint64
  | .float _ => .float
  | .double _ => .double

/-- The call that writes a value. -/
def write (junk : Junk) : Scalar → Use Unit
  | .fixInt8 val => writeFixInt8 junk val
  | .fixUint8 val => writeFixUint8 junk val
  | .fixInt16 val => writeFixInt16 junk val
  | .fixUint16 val => writeFixUint16 junk val
  | .fixInt32 val => writeFixInt32 junk val
  | .fixUint32 val => writeFixUint32 junk val
  | .fixInt64 val => writeFixInt64 junk val
  | .fixUint64 val => writeFixUint64 junk val
  | .int32 val => writeInt32 junk val
  | .uint32 val => writeUint32 junk val
  | .int64 val => writeInt64 junk val
  | .uint64 val => writeUint64 junk val
  | .float val => writeFloat junk val
  | .double val => writeDouble junk val

end Scalar

/-- The call that reads a value of a type. -/
def Kind.read : Kind → Use Scalar
  | .fixInt8 => do return .fixInt8 (← readFixInt8)
  | .fixUint8 => do return .fixUint8 (← readFixUint8)
  | .fixInt16 => do return .fixInt16 (← readFixInt16)
  | .fixUint16 => do return .fixUint16 (← readFixUint16)
  | .fixInt32 => do return .fixInt32 (← readFixInt32)
  | .fixUint32 => do return .fixUint32 (← readFixUint32)
  | .fixInt64 => do return .fixInt64 (← readFixInt64)
  | .fixUint64 => do return .fixUint64 (← readFixUint64)
  | .int32 => do return .int32 (← readInt32)
  | .uint32 => do return .uint32 (← readUint32)
  | .int64 => do return .int64 (← readInt64)
  | .uint64 => do return .uint64 (← readUint64)
  | .float => do return .float (← readFloat)
  | .double => do return .double (← readDouble)

/-- A call on the writing side. -/
inductive WriteCall
  | setLittleEndian (v : Bool)
  | write (junk : Junk) (val : Scalar)

/-- A call on the reading side. -/
inductive ReadCall
  | setLittleEndian (v : Bool)
  | read (kind : Kind)
  deriving DecidableEq, Repr

/-- The calls of the writing side, one after the other. -/
def writeAll : List WriteCall → Use Unit
  | [] => pure ()
  | .setLittleEndian v :: calls => do
    setLittleEndian v
    writeAll calls
  | .write junk val :: calls => do
    val.write junk
    writeAll calls

/-- The calls of the reading side, and the values they return. -/
def readAll : List ReadCall → Use (List Scalar)
  | [] => pure []
  | .setLittleEndian v :: calls => do
    setLittleEndian v
    readAll calls
  | .read kind :: calls => do
    let val ← kind.read
    let vals ← readAll calls
    pure (val :: vals)

/-- The byte order `setLittleEndian` sets. -/
def orderOf (v : Bool) : Endian := if v then .little else .big

/-- The byte order after the calls of the writing side. -/
def orderAfter : Endian → List WriteCall → Endian
  | e, [] => e
  | _, .setLittleEndian v :: calls => orderAfter (orderOf v) calls
  | e, .write _ _ :: calls => orderAfter e calls

/-- The values that are written, each with the byte order in force. -/
def written : Endian → List WriteCall → List (Endian × Scalar)
  | _, [] => []
  | _, .setLittleEndian v :: calls => written (orderOf v) calls
  | e, .write _ val :: calls => (e, val) :: written e calls

/-- The types that are read, each with the byte order in force. -/
def asked : Endian → List ReadCall → List (Endian × Kind)
  | _, [] => []
  | _, .setLittleEndian v :: calls => asked (orderOf v) calls
  | e, .read kind :: calls => (e, kind) :: asked e calls

/-- What a value of fixed width reads as. -/
theorem reads_fix {α : Type} {e : Endian} {n v : Nat} (hn : 0 < n) (g : Nat → α) (k : α → Scalar) {x : α}
    (hg : g (v % 256 ^ n) = x) :
    Reads e (do return k (← (do let v ← readFix n; pure (g v)))) (fixBytes e n v) (k x) :=
  ((reads_readFix hn).map g hg).map k rfl

/-- `writeUint32` and `readUint32`. -/
theorem uint32_codec (e : Endian) (val : UInt32) :
    ∃ bs, (∀ junk, Writes e (writeUint32 junk val) bs) ∧ Reads e readUint32 bs val := by
  have hlt : val.toNat < 2 ^ 32 := val.toNat_lt
  obtain ⟨bs, hbs⟩ := @varintBytes_isSome 5 val.toNat (by decide) (by omega)
  refine ⟨bs, fun junk => writes_writeVarint junk hbs, ?_⟩
  exact (reads_readVarint (by decide) hlt hbs).map UInt32.ofNat UInt32.ofNat_toNat

/-- `writeUint64` and `readUint64`. -/
theorem uint64_codec (e : Endian) (val : UInt64) :
    ∃ bs, bs.length = Nat.log2 val.toNat / 7 + 1 ∧ (∀ junk, Writes e (writeUint64 junk val) bs) ∧
      Reads e readUint64 bs val := by
  have hlt : val.toNat < 2 ^ 64 := val.toNat_lt
  obtain ⟨bs, hbs⟩ := @varintBytes_isSome 10 val.toNat (by decide) (by omega)
  refine ⟨bs, length_varintBytes hbs, fun junk => writes_writeVarint junk hbs, ?_⟩
  exact (reads_readVarint (by decide) hlt hbs).map UInt64.ofNat UInt64.ofNat_toNat

/-- **Each value has its bytes**, which its call writes and the call for its type reads. -/
theorem Scalar.codec (e : Endian) (val : Scalar) :
    ∃ bs, (∀ junk, Writes e (val.write junk) bs) ∧ Reads e val.kind.read bs val := by
  cases val with
  | fixInt8 val =>
    refine ⟨[val.toUInt8], fun junk => ?_, ?_⟩
    · have hbytes : leBytes 1 val.toUInt8.toNat = [val.toUInt8] := by simp [leBytes]
      show Writes e (Buffer.write junk (leBytes 1 val.toUInt8.toNat)) _
      rw [hbytes]
      exact writes_write junk _
    · refine Reads.map (Reads.map (reads_read (List.cons_ne_nil _ [])) (fun v => (UInt8.ofNat (leValue v)).toInt8) ?_)
        Scalar.fixInt8 rfl
      simp [leValue]
  | fixUint8 val =>
    refine ⟨[val], fun junk => ?_, (reads_readFixUint8 val).map Scalar.fixUint8 rfl⟩
    have hbytes : leBytes 1 val.toNat = [val] := by simp [leBytes]
    show Writes e (Buffer.write junk (leBytes 1 val.toNat)) _
    rw [hbytes]
    exact writes_write junk _
  | fixInt16 val =>
    exact ⟨_, fun junk => writes_writeFix junk,
      reads_fix (by decide) (fun v => (UInt16.ofNat v).toInt16) Scalar.fixInt16 (by simp)⟩
  | fixUint16 val =>
    exact ⟨_, fun junk => writes_writeFix junk, reads_fix (by decide) UInt16.ofNat Scalar.fixUint16 (by simp)⟩
  | fixInt32 val =>
    exact ⟨_, fun junk => writes_writeFix junk,
      reads_fix (by decide) (fun v => (UInt32.ofNat v).toInt32) Scalar.fixInt32 (by simp)⟩
  | fixUint32 val =>
    exact ⟨_, fun junk => writes_writeFix junk, reads_fix (by decide) UInt32.ofNat Scalar.fixUint32 (by simp)⟩
  | fixInt64 val =>
    exact ⟨_, fun junk => writes_writeFix junk,
      reads_fix (by decide) (fun v => (UInt64.ofNat v).toInt64) Scalar.fixInt64 (by simp)⟩
  | fixUint64 val =>
    exact ⟨_, fun junk => writes_writeFix junk, reads_fix (by decide) UInt64.ofNat Scalar.fixUint64 (by simp)⟩
  | int32 val =>
    obtain ⟨bs, hwrites, hreads⟩ := uint32_codec e (encodeZigzag32 val)
    exact ⟨bs, hwrites, (hreads.map decodeZigzag32 (decodeZigzag32_encodeZigzag32 val)).map Scalar.int32 rfl⟩
  | uint32 val =>
    obtain ⟨bs, hwrites, hreads⟩ := uint32_codec e val
    exact ⟨bs, hwrites, hreads.map Scalar.uint32 rfl⟩
  | int64 val =>
    obtain ⟨bs, -, hwrites, hreads⟩ := uint64_codec e (encodeZigzag64 val)
    exact ⟨bs, hwrites, (hreads.map decodeZigzag64 (decodeZigzag64_encodeZigzag64 val)).map Scalar.int64 rfl⟩
  | uint64 val =>
    obtain ⟨bs, -, hwrites, hreads⟩ := uint64_codec e val
    exact ⟨bs, hwrites, hreads.map Scalar.uint64 rfl⟩
  | float bits =>
    exact ⟨_, fun junk => writes_writeFix junk, reads_fix (by decide) UInt32.ofNat Scalar.float (by simp)⟩
  | double bits =>
    exact ⟨_, fun junk => writes_writeFix junk, reads_fix (by decide) UInt64.ofNat Scalar.double (by simp)⟩

/-- The bytes of a list of values have been written, each with its byte order. -/
inductive Encoded : List (Endian × Scalar) → Bytes → Prop
  | nil : Encoded [] []
  | cons {e : Endian} {val : Scalar} {vals : List (Endian × Scalar)} {bs cs : Bytes} :
      Reads e val.kind.read bs val → Encoded vals cs → Encoded ((e, val) :: vals) (bs ++ cs)

/-- **The writing side** appends bytes of the values, and ends with the last byte order. -/
theorem writeAll_spec {base : Nat} (hbase : 0 < base) : ∀ (calls : List WriteCall) {s : EndianArray} {data : Bytes},
    Filled base s.array data →
    ∃ s' bs, writeAll calls s = some (.ok (), s') ∧ s'.endian = orderAfter s.endian calls ∧
      Encoded (written s.endian calls) bs ∧ Filled base s'.array (data ++ bs)
  | [], s, data, h => ⟨s, [], rfl, rfl, .nil, by rwa [List.append_nil]⟩
  | .setLittleEndian v :: calls, s, data, h => by
    obtain ⟨s', bs, hall, he, henc, hfill⟩ := writeAll_spec hbase calls (s := { s with endian := orderOf v }) h
    exact ⟨s', bs, hall, he, henc, hfill⟩
  | .write junk val :: calls, s, data, h => by
    obtain ⟨bs, hwrites, hreads⟩ := val.codec s.endian
    obtain ⟨s₁, hwrite, he₁, hfill₁⟩ := hwrites junk base s data hbase rfl h
    obtain ⟨s', cs, hall, he, henc, hfill⟩ := writeAll_spec hbase calls hfill₁
    rw [he₁] at he henc
    rw [List.append_assoc] at hfill
    exact ⟨s', bs ++ cs, (Use.bind_ok hwrite).trans hall, he, .cons hreads henc, hfill⟩

/-- **The reading side**, asking for the same types under the same byte orders, gets the values. -/
theorem readAll_spec {base total : Nat} (hbase : 0 < base) : ∀ (calls : List ReadCall) {s : EndianArray}
    {vals : List (Endian × Scalar)} {bs : Bytes}, Encoded vals bs →
    asked s.endian calls = vals.map (fun v => (v.1, v.2.kind)) → Rest base total s.array bs →
    ∃ s', readAll calls s = some (.ok (vals.map (·.2)), s') ∧ Rest base total s'.array []
  | [], s, vals, bs, henc, hasked, hrest => by
    cases henc with
    | nil => exact ⟨s, rfl, hrest⟩
    | cons _ _ => cases hasked
  | .setLittleEndian v :: calls, s, vals, bs, henc, hasked, hrest =>
    readAll_spec hbase calls (s := { s with endian := orderOf v }) henc hasked hrest
  | .read kind :: calls, s, vals, bs, henc, hasked, hrest => by
    cases henc with
    | nil => cases hasked
    | @cons e val vals bs cs hreads henc =>
      obtain ⟨hhead, htail⟩ := List.cons.inj hasked
      obtain ⟨rfl, rfl⟩ := Prod.mk.inj hhead
      obtain ⟨s₁, hread, he₁, hrest₁⟩ := hreads base total s cs hbase rfl hrest
      rw [← he₁] at htail
      obtain ⟨s', hall, hrest'⟩ := readAll_spec hbase calls henc htail hrest₁
      refine ⟨s', ?_, hrest'⟩
      have hlast : (do let vals ← readAll calls; pure (val :: vals) : Use (List Scalar)) s₁ =
          some (.ok (val :: vals.map (·.2)), s') := Use.bind_ok hall
      exact (Use.bind_ok hread).trans hlast

/-- **Scalars come back.**  For every block size and whatever memory holds: any calls that write
values of any types, with `setLittleEndian` called anywhere among them, then `setPosition(0)`,
then any calls that read the same types under the same byte orders.  They return the values
that were written, and nothing is left to read. -/
theorem scalars_roundTrip (base : Nat) (hbase : 1 ≤ base) (junk : Junk) (writes : List WriteCall)
    (reads : List ReadCall)
    (hsame : asked (orderAfter .big writes) reads = (written .big writes).map fun v => (v.1, v.2.kind)) :
    ∃ s, (do writeAll writes; setPosition 0; readAll reads : Use (List Scalar)) (.new junk base) =
        some (.ok ((written .big writes).map (·.2)), s) ∧
      s.array.getReadSize = 0 := by
  obtain ⟨s₁, bs, hwrite, he, henc, hfill⟩ := writeAll_spec hbase writes (s := .new junk base) (filled_new hbase junk)
  rw [List.nil_append] at hfill
  obtain ⟨ba, hset, hrest⟩ := hfill.setPosition_zero hbase
  have hset' : setPosition 0 s₁ = some (.ok (), { s₁ with array := ba }) := by
    rw [setPosition, hset]
    rfl
  have hstart : (EndianArray.new junk base).endian = .big := rfl
  rw [hstart] at he henc
  rw [← he] at hsame
  obtain ⟨s', hread, hrest'⟩ := readAll_spec hbase reads (s := { s₁ with array := ba }) henc hsame hrest
  refine ⟨s', ?_, hrest'.getReadSize⟩
  have hlast : (do setPosition 0; readAll reads : Use (List Scalar)) s₁ =
      some (.ok ((written .big writes).map (·.2)), s') := (Use.bind_ok hset').trans hread
  exact (Use.bind_ok hwrite).trans hlast

/-- Values of several types over blocks of three bytes, in both byte orders. -/
def mixedWrites : List WriteCall :=
  [.write (fun _ _ => 1) (.fixInt16 (-2)), .setLittleEndian true, .write (fun _ _ => 2) (.fixUint32 0xdeadbeef),
    .write (fun _ _ => 3) (.int64 (-300)), .setLittleEndian false, .write (fun _ _ => 4) (.double 7)]

/-- The calls that read them, with the byte order set back first. -/
def mixedReads : List ReadCall :=
  [.setLittleEndian false, .read .fixInt16, .setLittleEndian true, .read .fixUint32, .read .int64,
    .setLittleEndian false, .read .double]

/-- A run that writes values of several kinds, with changes of the byte order, and reads them
back. -/
theorem scalars_roundTrip_mixed :
    asked (orderAfter .big mixedWrites) mixedReads = (written .big mixedWrites).map (fun v => (v.1, v.2.kind)) ∧
    ∃ s, (do writeAll mixedWrites; setPosition 0; readAll mixedReads : Use (List Scalar))
        (.new (fun _ _ => 0) 3) =
          some (.ok [.fixInt16 (-2), .fixUint32 0xdeadbeef, .int64 (-300), .double 7], s) ∧
      s.array.getReadSize = 0 :=
  ⟨by decide, scalars_roundTrip 3 (by decide) _ mixedWrites mixedReads (by decide)⟩

end Buffer
end Wuchat
