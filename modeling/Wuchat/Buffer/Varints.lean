/-
# Numbers of variable length

`writeUint32`, `writeUint64`, `readUint32` and `readUint64` on an array in any state, and with
any bytes to read.  A number has one encoding (`Encodes`): it fits the temporary array of its
writer, its reader takes it off the front of whatever follows, and no read that returns the
number takes fewer bytes.  Both writers encode a number of 32 bits alike.

The number of bytes a read takes bounds the value (`takeVarint_ok_lt`), which is why a shorter
encoding does not exist, although the last byte of a long one may lose bits.
-/

import Wuchat.Buffer.ShortReads

namespace Wuchat
namespace Buffer

open Foundation Streams

/-! ### What the encoder makes -/

/-- A varint has no more bytes than its room. -/
theorem length_varintBytes_le : ∀ {room v : Nat} {bs : Bytes}, varintBytes room v = some bs → bs.length ≤ room
  | 0, _, _, h => by cases h
  | room + 1, v, bs, h => by
    rw [varintBytes] at h
    split at h
    · obtain ⟨more, hmore, rfl⟩ := Option.map_eq_some_iff.1 h
      exact Nat.succ_le_succ (length_varintBytes_le hmore)
    · obtain rfl := Option.some.inj h
      exact Nat.le_add_left 1 room

/-- More room does not change the bytes. -/
theorem varintBytes_mono : ∀ {room room' v : Nat} {bs : Bytes}, varintBytes room v = some bs → room ≤ room' →
    varintBytes room' v = some bs
  | 0, _, _, _, h, _ => by cases h
  | room + 1, 0, _, _, _, hle => absurd hle (Nat.not_succ_le_zero room)
  | room + 1, room' + 1, v, bs, h, hle => by
    rw [varintBytes] at h ⊢
    split at h
    · rename_i hge
      obtain ⟨more, hmore, rfl⟩ := Option.map_eq_some_iff.1 h
      rw [if_pos hge, varintBytes_mono hmore (Nat.le_of_succ_le_succ hle), Option.map_some]
    · rename_i hlt
      rw [if_neg hlt, h]

/-- **Seven bits to a byte are needed.** -/
theorem length_varintBytes_le_of_lt {room v k : Nat} {bs : Bytes} (h : varintBytes room v = some bs) (hk : 0 < k)
    (hv : v < 2 ^ (7 * k)) : bs.length ≤ k := by
  rw [length_varintBytes h]
  rcases Nat.eq_zero_or_pos v with rfl | hpos
  · rw [Nat.log2_zero, Nat.zero_div]
    exact hk
  · have hlog : Nat.log2 v < 7 * k := (Nat.log2_lt (Nat.pos_iff_ne_zero.1 hpos)).2 hv
    omega

/-! ### What a read takes -/

section

variable {width turns i result k x : Nat} {bs : Bytes}

/-- No more bytes than there are, and than the loop has turns. -/
theorem takeVarint_taken_le : ∀ {turns i result : Nat} {bs : Bytes},
    (takeVarint width turns i result bs).2 ≤ turns ∧ (takeVarint width turns i result bs).2 ≤ bs.length
  | 0, _, _, bs => ⟨Nat.le_refl 0, Nat.zero_le bs.length⟩
  | turns + 1, _, _, [] => ⟨Nat.zero_le _, Nat.le_refl 0⟩
  | turns + 1, i, result, b :: bs => by
    rw [takeVarint, List.length_cons]
    split
    · exact ⟨Nat.le_add_left 1 turns, Nat.le_add_left 1 bs.length⟩
    · obtain ⟨hturns, hlen⟩ := @takeVarint_taken_le turns (i + 7)
        (result ||| (b.toNat &&& 0x7f) <<< i % 2 ^ width) bs
      dsimp only
      omega

/-- Seven more bits. -/
theorem or_digit_lt (width : Nat) {b : Nat} (hresult : result < 2 ^ i) (hb : b < 0x80) :
    result ||| b <<< i % 2 ^ width < 2 ^ (i + 7) := by
  have hshift : b <<< i < 2 ^ (i + 7) := by
    rw [Nat.shiftLeft_eq, Nat.add_comm i, Nat.pow_add]
    exact Nat.mul_lt_mul_of_pos_right hb (Nat.two_pow_pos i)
  refine Nat.or_lt_two_pow ?_ (Nat.lt_of_le_of_lt (Nat.mod_le _ _) hshift)
  exact Nat.lt_of_lt_of_le hresult (Nat.pow_le_pow_right (by decide) (Nat.le_add_right i 7))

/-- **Seven bits for every byte that is taken.** -/
theorem takeVarint_ok_lt : ∀ {turns i result k x : Nat} {bs : Bytes},
    takeVarint width turns i result bs = (.ok x, k) → result < 2 ^ i → x < 2 ^ (i + 7 * k)
  | 0, _, _, _, _, _, h, hresult => by
    cases h
    exact hresult
  | turns + 1, _, _, _, _, [], h, _ => by cases h
  | turns + 1, i, result, k, x, b :: bs, h, hresult => by
    rw [takeVarint] at h
    split at h
    · rename_i hlast
      cases h
      exact or_digit_lt width hresult (UInt8.lt_iff_toNat_lt.1 hlast)
    · have hlow : b.toNat &&& 0x7f < 0x80 := Nat.lt_succ_of_le Nat.and_le_right
      obtain ⟨hok, hk⟩ := Prod.mk.inj h
      have ih := takeVarint_ok_lt (Prod.ext hok rfl) (or_digit_lt width hresult hlow)
      have hexp : i + 7 * k = i + 7 + 7 * (k - 1) := by omega
      rw [hexp, ← hk, Nat.add_sub_cancel_left]
      exact ih

/-- A varint that is read took a byte. -/
theorem takeVarint_ok_pos (h : takeVarint width (turns + 1) i result bs = (.ok x, k)) : 0 < k := by
  cases bs with
  | nil => cases h
  | cons b bs =>
    have hpos := @takeVarint_taken_pos width turns i result b bs
    rwa [h] at hpos

end

/-! ### Reading in any state -/

variable {α : Type} {e : Endian} {m : Use α} {p : Bytes → Taken α} {x : α}

/-- What a program reads off the front is what it takes. -/
theorem Takes.of_reads {bs : Bytes} (hm : Takes e m p) (h : Reads e m bs x) (rest : Bytes) :
    ∃ k, p (bs ++ rest) = (.ok x, k) ∧ (bs ++ rest).drop k = rest := by
  -- an array with these bytes in front of the position
  obtain ⟨ba, -, hfill⟩ := (filled_new Nat.one_pos fun _ _ => 0).write Nat.one_pos (fun _ _ => 0) (bs ++ rest)
  rw [List.nil_append] at hfill
  obtain ⟨ba, -, hrest⟩ := hfill.setPosition_zero Nat.one_pos
  obtain ⟨s', hread, -, hrest'⟩ := h 1 _ ⟨ba, e⟩ rest Nat.one_pos rfl hrest
  obtain ⟨f, hf, -, hbytes, -⟩ := hrest.flat
  obtain ⟨f', hf', -, hbytes', -⟩ := hrest'.flat
  obtain ⟨s'', htake, hskip⟩ := hm 1 ⟨ba, e⟩ f Nat.one_pos rfl hf
  have hreadable : ba.readable = bs ++ rest := hf.readable.trans hbytes
  have hleft := hskip.readable hf
  dsimp only at htake hskip hleft
  rw [hreadable] at htake hskip hleft
  rw [hread] at htake
  obtain ⟨hok, rfl⟩ := Prod.mk.inj (Option.some.inj htake)
  refine ⟨_, Prod.ext hok.symm rfl, ?_⟩
  rw [← hleft, hf'.readable]
  exact hbytes'

/-- **The bytes of a number**, for a writer whose temporary array has `room` bytes and the reader of its
type: what the writer puts at the position, what the reader takes off the front, and that no read which returns
the number takes less. -/
structure Encodes (room : Nat) (writer : Junk → Use Unit) (reader : Use α) (v : α) (bs : Bytes) : Prop where
  length_le : bs.length ≤ room
  writes : ∀ (base : Nat) (s : EndianArray) (f : Flat) (junk : Junk), 0 < base → Simulates base s.array f →
    ∃ s', writer junk s = some (.ok (), s') ∧ Simulates base s'.array (f.write base junk bs)
  reads : ∀ (base : Nat) (s : EndianArray) (f : Flat) (rest : Bytes), 0 < base → Simulates base s.array f →
    s.array.readable = bs ++ rest → ∃ s', reader s = some (.ok v, s') ∧ s'.array.readable = rest
  shortest : ∀ (base : Nat) (s s' : EndianArray) (f : Flat), 0 < base → Simulates base s.array f →
    reader s = some (.ok v, s') → s'.array.readable.length + bs.length ≤ s.array.readable.length

/-- **A read on any bytes** comes to an end, with a value or an exception, and takes at most `room` of them. -/
def Bounded (room : Nat) (reader : Use α) : Prop :=
  ∀ (base : Nat) (s : EndianArray) (f : Flat), 0 < base → Simulates base s.array f →
    ∃ r s' k, reader s = some (r, s') ∧ k ≤ room ∧ k ≤ s.array.readable.length ∧
      s'.array.readable = s.array.readable.drop k

section

variable {β : Type} {width room v : Nat} {bs : Bytes} {reader : Use β} {g : Nat → β} {y : β}

/-- What writes and reads seven bits to a byte encodes the numbers below its width. -/
theorem encodes_varint (turns : Nat)
    (htakes : ∀ e, Takes e reader fun bs => (takeVarint width (turns + 1) 0 0 bs).map g)
    (hreads : ∀ e, Reads e reader bs y) (hbs : varintBytes room v = some bs) (hg : ∀ n, g n = y → v ≤ n)
    {writer : Junk → Use Unit} (hwriter : ∀ junk, writer junk = writeVarint junk room v) :
    Encodes room writer reader y bs where
  length_le := length_varintBytes_le hbs
  writes base s f junk hbase hf := by
    obtain ⟨ba, hwrite, hsim⟩ := hf.write hbase junk bs
    refine ⟨{ s with array := ba }, ?_, hsim⟩
    rw [hwriter, writeVarint, hbs]
    show write junk bs s = _
    rw [write, hwrite]
    rfl
  reads base s f rest hbase hf hreadable := by
    obtain ⟨k, hk, hdrop⟩ := (htakes s.endian).of_reads (hreads s.endian) rest
    obtain ⟨s', hread, hskip⟩ := htakes s.endian base s f hbase rfl hf
    have hleft := hskip.readable hf
    dsimp only at hread hleft
    rw [hreadable] at hread hleft
    rw [hk] at hread hleft
    exact ⟨s', hread, hleft.trans hdrop⟩
  shortest base s s' f hbase hf hread := by
    obtain ⟨s'', hread', hskip⟩ := htakes s.endian base s f hbase rfl hf
    have hleft := hskip.readable hf
    obtain ⟨hok, rfl⟩ := Prod.mk.inj (Option.some.inj (hread.symm.trans hread'))
    dsimp only at hok hleft
    cases htake : takeVarint width (turns + 1) 0 0 s.array.readable with
    | mk r k =>
      rw [htake] at hok hleft
      have hle := (@takeVarint_taken_le width (turns + 1) 0 0 s.array.readable).2
      rw [htake] at hle
      cases r with
      | error error => cases hok
      | ok n =>
        have hn : v ≤ n := hg n (Except.ok.inj hok).symm
        have hlt := takeVarint_ok_lt htake (Nat.two_pow_pos 0)
        rw [Nat.zero_add] at hlt
        have hlen := length_varintBytes_le_of_lt hbs (takeVarint_ok_pos htake) (Nat.lt_of_le_of_lt hn hlt)
        have hdrop : s'.array.readable.length = s.array.readable.length - k := by
          rw [hleft, List.length_drop]
          rfl
        dsimp only at hle
        omega

/-- The reader of a varint takes at most as many bytes as it has turns. -/
theorem bounded_varint {turns : Nat} (htakes : ∀ e, Takes e reader fun bs => (takeVarint width turns 0 0 bs).map g) :
    Bounded turns reader := by
  intro base s f hbase hf
  obtain ⟨s', hread, hskip⟩ := htakes s.endian base s f hbase rfl hf
  obtain ⟨hturns, hlen⟩ := @takeVarint_taken_le width turns 0 0 s.array.readable
  exact ⟨_, s', _, hread, hturns, hlen, hskip.readable hf⟩

end

/-- **Numbers of variable length.**  Every number of 32 (64) bits has an encoding of at most 5 (10) bytes, which fits
the temporary array, is read back in front of any bytes and leaves exactly these, and is the shortest its reader
returns the number for; `writeUint64` encodes a number of 32 bits as `writeUint32` does.  On any bytes the readers
come to an end within 5 (10) of them. -/
theorem varints_encode :
    (∀ v : UInt32, ∃ bs, Encodes 5 (writeUint32 · v) readUint32 v bs ∧
      Encodes 10 (writeUint64 · v.toUInt64) readUint64 v.toUInt64 bs) ∧
    (∀ v : UInt64, ∃ bs, Encodes 10 (writeUint64 · v) readUint64 v bs) ∧
    Bounded 5 readUint32 ∧ Bounded 10 readUint64 := by
  have h64 : ∀ (v : UInt64) {bs : Bytes}, varintBytes 10 v.toNat = some bs →
      Encodes 10 (writeUint64 · v) readUint64 v bs := by
    intro v bs hbs
    refine encodes_varint 9 (fun _ => takes_readUint64) (fun e => ?_) hbs (fun n hn => ?_) fun _ => rfl
    · exact (reads_readVarint (by decide) v.toNat_lt hbs).map UInt64.ofNat UInt64.ofNat_toNat
    · rw [← hn, UInt64.toNat_ofNat']
      exact Nat.mod_le n _
  refine ⟨fun v => ?_, fun v => ?_, bounded_varint fun _ => takes_readUint32, bounded_varint fun _ => takes_readUint64⟩
  · have hlt : v.toNat < 2 ^ 32 := v.toNat_lt
    obtain ⟨bs, hbs⟩ := @varintBytes_isSome 5 v.toNat (by decide) (by omega)
    refine ⟨bs, ?_, h64 _ (varintBytes_mono hbs (by decide))⟩
    refine encodes_varint 4 (fun _ => takes_readUint32) (fun e => ?_) hbs (fun n hn => ?_) fun _ => rfl
    · exact (reads_readVarint (by decide) hlt hbs).map UInt32.ofNat UInt32.ofNat_toNat
    · rw [← hn, UInt32.toNat_ofNat']
      exact Nat.mod_le n _
  · have hlt : v.toNat < 2 ^ 64 := v.toNat_lt
    obtain ⟨bs, hbs⟩ := @varintBytes_isSome 10 v.toNat (by decide) (by omega)
    exact ⟨bs, h64 v hbs⟩

end Buffer
end Wuchat
