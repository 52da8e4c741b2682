/-
# Reading an exact number of bytes

When every call moves something, `readFixSize` fills its buffer with the next bytes
of the stream, however the calls cut them, or answers `0` at the end of the stream
with the buffer filled as far as it goes (`Link.Holds.readFixSize`).  `writeFixSize`
hands over the whole buffer (`Link.Holds.writeFixSize`).

`Yields m bs R rest` is the triple for programs on such streams: from any open
stream that holds `bs`, the program ends with a value in `R` and leaves `rest`.
-/

import Wuchat.Streams.Stream

namespace Wuchat
namespace Streams

open Foundation

/-- The bytes `bs`, in pieces that follow each other from the offset `o`. -/
inductive Chain : Nat → Bytes → List (Nat × Bytes) → Prop
  | nil (o : Nat) : Chain o [] []
  | cons {o : Nat} {w bs : Bytes} {ws : List (Nat × Bytes)} :
      Chain (o + w.length) bs ws → Chain o (w ++ bs) ((o, w) :: ws)

/-- One piece is a chain. -/
theorem Chain.single (o : Nat) (bs : Bytes) : Chain o bs [(o, bs)] := by
  have h := Chain.cons (w := bs) (Chain.nil (o + bs.length))
  rwa [List.append_nil] at h

/-- Every piece lies between the first offset and the last. -/
theorem Chain.bounds {o : Nat} {bs : Bytes} {ws : List (Nat × Bytes)} (h : Chain o bs ws) :
    ∀ w ∈ ws, o ≤ w.1 ∧ w.1 + w.2.length ≤ o + bs.length := by
  induction h with
  | nil => simp
  | @cons o w bs ws _ ih =>
    intro w' hw'
    rw [List.length_append]
    rcases List.mem_cons.1 hw' with rfl | hmem
    · exact ⟨Nat.le_refl _, by dsimp only; omega⟩
    · have := ih w' hmem
      omega

/-- **The loop of `readFixSize` on calls that move:** it takes what it was asked for,
or all there is. -/
theorem readLoop_moves (length : Nat) {reads : List Io} (hmoves : ∀ io ∈ reads, io.Moves) :
    ∀ (input : Bytes) (offset left : Nat), offset + left < sizeMod →
      ∃ ret writes reads', readLoop length reads input offset left =
          ⟨ret, writes, reads', input.drop left⟩ ∧ Chain offset (input.take left) writes ∧
        (∀ io ∈ reads', io.Moves) ∧ ret = if left ≤ input.length then length else 0 := by
  induction reads with
  | nil =>
    intro input offset left hlt
    rw [readLoop]
    split
    · rename_i h0
      subst h0
      exact ⟨length, [], [], rfl, .nil _, nofun, (if_pos (Nat.zero_le _)).symm⟩
    rename_i h0
    split
    · rename_i hnil
      subst hnil
      refine ⟨0, [], [], by rw [List.drop_nil], ?_, nofun, (if_neg ?_).symm⟩
      · rw [List.take_nil]
        exact .nil _
      · rw [List.length_nil]
        omega
    split
    · rename_i hle
      exact ⟨length, _, [], rfl, .single _ _, nofun, rfl⟩
    · rename_i hle
      refine ⟨0, _, [], ?_, .single _ _, nofun, rfl⟩
      rw [List.drop_of_length_le (by omega), List.take_of_length_le (by omega)]
  | cons io reads ih =>
    intro input offset left hlt
    have hrest : ∀ io' ∈ reads, io'.Moves := fun io' h => hmoves io' (List.mem_cons_of_mem _ h)
    cases io with
    | fail => exact (hmoves .fail List.mem_cons_self).elim
    | count k =>
      have hk : 0 < k := hmoves (.count k) List.mem_cons_self
      rw [readLoop]
      split
      · rename_i h0
        subst h0
        exact ⟨length, [], _, rfl, .nil _, hmoves, (if_pos (Nat.zero_le _)).symm⟩
      rename_i h0
      dsimp only
      split
      · rename_i hlen
        have hnil : input = [] := by
          rw [← List.length_eq_zero_iff]
          omega
        subst hnil
        refine ⟨0, [], reads, by rw [List.drop_nil], ?_, hrest, (if_neg ?_).symm⟩
        · rw [List.take_nil]
          exact .nil _
        · rw [List.length_nil]
          omega
      · rename_i hlen
        generalize hn : min k (min left input.length) = len at hlen ⊢
        have hle : len ≤ left ∧ len ≤ input.length := by omega
        rw [Nat.mod_eq_of_lt (by omega)]
        obtain ⟨ret, writes, reads', heq, hchain, hmoves', hret⟩ :=
          ih hrest (input.drop len) (offset + len) (left - len) (by omega)
        rw [heq]
        refine ⟨ret, (offset, input.take len) :: writes, reads', ?_, ?_, hmoves', ?_⟩
        · rw [List.drop_drop, Nat.add_sub_cancel' hle.1]
        · have hsplit : input.take left = input.take len ++ (input.drop len).take (left - len) := by
            rw [← List.take_add, Nat.add_sub_cancel' hle.1]
          rw [hsplit]
          refine .cons ?_
          rwa [List.length_take, Nat.min_eq_left hle.2]
        · rw [hret, List.length_drop]
          split <;> split <;> first | rfl | omega

/-- A write replaces as many bytes as it has. -/
theorem poke_append (pre : Bytes) {old bs : Bytes} (post : Bytes) (h : old.length = bs.length) :
    poke (pre ++ (old ++ post)) pre.length bs = some (pre ++ (bs ++ post)) := by
  have hle : pre.length + bs.length ≤ (pre ++ (old ++ post)).length := by
    simp only [List.length_append]
    omega
  rw [poke, if_pos hle, List.take_left, List.drop_append, List.drop_of_length_le (by omega),
    Nat.add_sub_cancel_left, ← h, List.drop_left, List.nil_append, List.append_assoc]

/-- The writes of a read land one after the other. -/
theorem pokes_chain {pos o : Nat} {bs : Bytes} {ws : List (Nat × Bytes)} (h : Chain o bs ws) :
    ∀ pre old post : Bytes, pre.length = pos + o → old.length = bs.length →
      (pre ++ (old ++ post)).length < sizeMod →
      pokes pos (pre ++ (old ++ post)) ws = some (pre ++ (bs ++ post)) := by
  induction h with
  | nil o =>
    intro pre old post _ hold _
    rw [List.length_eq_zero_iff.1 hold]
    rfl
  | @cons o w bs ws _ ih =>
    intro pre old post hpre hold hlt
    rw [List.length_append] at hold
    simp only [List.length_append] at hlt
    have hsplit : old = old.take w.length ++ old.drop w.length := (List.take_append_drop _ _).symm
    have htake : (old.take w.length).length = w.length := by
      rw [List.length_take]
      omega
    have hmod : (pos + o) % sizeMod = pre.length := by
      rw [hpre]
      exact Nat.mod_eq_of_lt (by omega)
    rw [pokes, hmod, hsplit, List.append_assoc, poke_append pre _ htake]
    dsimp only
    rw [← List.append_assoc pre w]
    rw [ih (pre ++ w) (old.drop w.length) post (by rw [List.length_append]; omega)
      (by rw [List.length_drop]; omega) (by simp only [List.length_append, List.length_drop]; omega)]
    rw [List.append_assoc, List.append_assoc]

/-- The loop of `writeFixSize` on calls that move hands over the rest of the buffer. -/
theorem writeLoop_moves (length : Nat) (buf : Bytes) {writes : List Io}
    (hmoves : ∀ io ∈ writes, io.Moves) : ∀ offset left : Nat, offset + left = buf.length → buf.length < sizeMod →
      ∃ parts writes', writeLoop length writes offset left = ⟨length, parts, writes'⟩ ∧
        slices buf parts = some (buf.drop offset) ∧ ∀ io ∈ writes', io.Moves := by
  induction writes with
  | nil =>
    intro offset left heq _
    refine ⟨_, [], rfl, ?_, nofun⟩
    split
    · rw [slices, List.drop_of_length_le (by omega)]
    · rw [slices, if_pos (by omega), slices]
      dsimp only
      rw [List.append_nil, List.take_of_length_le (by rw [List.length_drop]; omega)]
  | cons io writes ih =>
    intro offset left heq hlt
    have hrest : ∀ io' ∈ writes, io'.Moves := fun io' h => hmoves io' (List.mem_cons_of_mem _ h)
    cases io with
    | fail => exact (hmoves .fail List.mem_cons_self).elim
    | count k =>
      have hk : 0 < k := hmoves (.count k) List.mem_cons_self
      rw [writeLoop]
      split
      · refine ⟨[], _, rfl, ?_, hmoves⟩
        rw [slices, List.drop_of_length_le (by omega)]
      dsimp only
      rw [if_neg (by omega)]
      generalize hn : min k left = len
      rw [Nat.mod_eq_of_lt (by omega)]
      obtain ⟨parts, writes', hw, hs, hmoves'⟩ := ih hrest (offset + len) (left - len) (by omega) hlt
      rw [hw]
      refine ⟨(offset, len) :: parts, writes', rfl, ?_, hmoves'⟩
      rw [slices, if_pos (by omega), hs]
      dsimp only
      rw [← List.drop_drop, List.take_append_drop]

/-! ### Streams whose calls move -/

/-- An open stream that holds the bytes `bs`, on which every call moves. -/
structure Link.Holds (l : Link) (bs : Bytes) : Prop where
  input : l.input = bs
  opened : l.closed = false
  reads : ∀ io ∈ l.reads, io.Moves
  writes : ∀ io ∈ l.writes, io.Moves

/-- From every stream that holds `bs`, the program ends with a value in `R` and the
stream holds `rest`. -/
def Yields {α : Type} (m : Act α) (bs : Bytes) (R : α → Prop) (rest : Bytes) : Prop :=
  ∀ l : Link, l.Holds bs → ∃ x l', m l = .ok x l' ∧ R x ∧ l'.Holds rest

variable {α β : Type}

/-- A value is returned without a byte. -/
theorem yields_pure {x : α} {R : α → Prop} (bs : Bytes) (h : R x) : Yields (pure x) bs R bs :=
  fun l hl => ⟨x, l, rfl, h, hl⟩

/-- **One program after another.** -/
theorem Yields.bind {m : Act α} {f : α → Act β} {bs mid rest : Bytes} {R : α → Prop}
    {R' : β → Prop} (hm : Yields m bs R mid) (hf : ∀ x, R x → Yields (f x) mid R' rest) :
    Yields (m >>= f) bs R' rest := by
  intro l hl
  obtain ⟨x, l₁, hx, hR, hl₁⟩ := hm l hl
  obtain ⟨y, l₂, hy, hR', hl₂⟩ := hf x hR l₁ hl₁
  exact ⟨y, l₂, (Act.bind_ok hx).trans hy, hR', hl₂⟩

/-- **A read into a part of a buffer** takes what was asked for or all there is, writes
it in that part only, and answers `0` when it was too little. -/
theorem Link.Holds.readFixSize {l : Link} {bs : Bytes} (hl : l.Holds bs) (buf : Bytes) (pos n : Nat)
    (hin : pos + n ≤ buf.length) (hlt : buf.length < sizeMod) :
    ∃ ret writes l', Link.readFixSize buf pos n l =
        .ok (ret, buf.take pos ++ (bs.take n ++ buf.drop (pos + (bs.take n).length)), writes) l' ∧
      l'.Holds (bs.drop n) ∧
      (∀ w ∈ writes, pos ≤ w.1 ∧ w.1 + w.2 ≤ pos + n) ∧ ret = if n ≤ bs.length then n else 0 := by
  obtain ⟨ret, writes, reads, heq, hchain, hmoves, hret⟩ :=
    readLoop_moves n hl.reads l.input 0 n (by omega)
  rw [hl.input] at heq hchain hret
  have htake : (bs.take n).length ≤ n := List.length_take_le n bs
  -- the part of the buffer that is written
  have hsplit : buf = buf.take pos ++ ((buf.drop pos).take (bs.take n).length ++
      buf.drop (pos + (bs.take n).length)) := by
    rw [← List.drop_drop, List.take_append_drop, List.take_append_drop]
  have hpokes : pokes pos buf writes =
      some (buf.take pos ++ (bs.take n ++ buf.drop (pos + (bs.take n).length))) := by
    have hpre : (buf.take pos).length = pos + 0 := by
      rw [List.length_take]
      omega
    have hold : ((buf.drop pos).take (bs.take n).length).length = (bs.take n).length := by
      rw [List.length_take, List.length_drop]
      omega
    have h := pokes_chain hchain (buf.take pos) ((buf.drop pos).take (bs.take n).length)
      (buf.drop (pos + (bs.take n).length)) hpre hold (by rw [← hsplit]; exact hlt)
    rwa [← hsplit] at h
  refine ⟨ret, writes.map fun w => ((pos + w.1) % sizeMod, w.2.length),
    { l with input := bs.drop n, reads := reads }, ?_, ⟨rfl, hl.opened, hmoves, hl.writes⟩, ?_, hret⟩
  · rw [Link.readFixSize, if_neg (by simp [hl.opened])]
    dsimp only
    rw [Streams.readFixSize, hl.input, heq]
    dsimp only
    rw [hpokes]
  · intro w hw
    obtain ⟨w', hw', rfl⟩ := List.mem_map.1 hw
    have hb := hchain.bounds w' hw'
    have hmod : (pos + w'.1) % sizeMod = pos + w'.1 := Nat.mod_eq_of_lt (by omega)
    dsimp only
    rw [hmod]
    omega

/-- **A write of a whole buffer puts it on the stream.** -/
theorem Link.Holds.writeFixSize {l : Link} {bs buf : Bytes} (hl : l.Holds bs)
    (hlt : buf.length < sizeMod) :
    ∃ writes, Link.writeFixSize buf l = .ok buf.length { l with output := l.output ++ buf, writes := writes } ∧
      Link.Holds { l with output := l.output ++ buf, writes := writes } bs := by
  obtain ⟨parts, writes, hw, hs, hmoves⟩ :=
    writeLoop_moves buf.length buf hl.writes 0 buf.length (by omega) hlt
  refine ⟨writes, ?_, hl.input, hl.opened, hl.reads, hmoves⟩
  rw [Link.writeFixSize, if_neg (by simp [hl.opened])]
  dsimp only
  rw [Streams.writeFixSize, hw]
  dsimp only
  rw [hs]
  rfl

end Streams
end Wuchat
