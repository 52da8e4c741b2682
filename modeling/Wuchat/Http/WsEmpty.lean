/-
# Messages without data

`WSSendMessage` and `WSRecvMessage` on streams whose reads and writes all succeed.

Both take a `0` of `writeFixSize` and `readFixSize` for a failure, and `0` is what these answer
when there is nothing to move.  So a frame without data is never sent or received without an
error: the sender has put it on the stream, reports `-1` and closes the stream, and the
receiver closes its own.

The other ways to fail are for frames of `2^31` bytes and more.  The result of `WSSendMessage` is the
`int32_t` of the size and two.  In `WSRecvMessage` the `int` `cur_len` is negative from `2^31`
bytes on, and the next frame fails the size check; the loop that unmasks does not run
for an `int` length below zero; and its index `cur_len + i` is an `int` as well, which must not
overflow (`IndexFits`).
-/

import Wuchat.Http.WsBounds
import Wuchat.Http.WsReuse

namespace Wuchat
namespace Http

open Foundation Streams

/-- A data frame of a message. -/
structure DataFrame where
  masked : Bool
  rand : Nat
  data : Bytes
  deriving DecidableEq, Repr

/-- The bytes of a frame. -/
def DataFrame.bytes (op : Int) (fin : Bool) (f : DataFrame) : Bytes :=
  WSFrameMessage.frame ⟨op, f.data⟩ f.rand f.masked fin

/-- The frames of a message: a first one with its opcode, the others with `CONTINUE`, and the last one
with `fin`. -/
def messageBytes : Int → List DataFrame → DataFrame → Bytes
  | op, [], last => last.bytes op true
  | op, f :: init, last => f.bytes op false ++ messageBytes 0 init last

/-- The data of frames. -/
def framesData (fs : List DataFrame) : Bytes := fs.flatMap DataFrame.data

/-- The index `cur_len + i` of the loop that unmasks does not overflow, for frames behind `before`
bytes. -/
def IndexFits : Nat → List DataFrame → Prop
  | _, [] => True
  | before, f :: fs =>
    (f.masked = true → ∀ i : Nat, (i : Int) < toInt32 f.data.length → before + i < 2 ^ 31) ∧
      IndexFits (before + f.data.length) fs

/-- `WSSendMessage` reports success and leaves the stream open. -/
def SendsWell (rand : Nat) (msg : WSFrameMessage) (client fin : Bool) (l : Link) : Prop :=
  ∃ r msg' l', (WSSendMessage rand msg client fin).run l = .ok (r, msg') l' ∧ 0 < r ∧ l'.closed = false

/-- `WSRecvMessage` returns the message of the frames and leaves the stream open, and no index overflows. -/
def RecvsWell (maxSize : Nat) (client : Bool) (op : Int) (init : List DataFrame) (last : DataFrame) (l : Link) :
    Prop :=
  (∃ notes l', WSRecvMessage maxSize client l = .ok (some ⟨op, framesData (init ++ [last])⟩, notes) l' ∧
    l'.closed = false) ∧ IndexFits 0 (init ++ [last])

/-- There is data, and the `int32_t` of its size and two is positive. -/
def SendCounts (size : Nat) : Prop := 0 < size ∧ 0 < (size + 2) % 2 ^ 32 ∧ (size + 2) % 2 ^ 32 < 2 ^ 31

/-- The key has only zeros. -/
def DataFrame.Plain (f : DataFrame) : Prop := leBytes 4 f.rand = [0, 0, 0, 0]

/-- **No frame is empty**, what comes before the last one fits an `int`, and the last one is not
masked, or is unmasked in full, or need not be. -/
structure RecvCounts (before : Nat) (init : List DataFrame) (last : DataFrame) : Prop where
  nonempty : ∀ f ∈ init, f.data ≠ []
  nonempty_last : last.data ≠ []
  small : before + (framesData init).length < 2 ^ 31
  unmasks : last.masked = true →
    last.data.length < 2 ^ 31 ∧ before + (framesData init).length + last.data.length ≤ 2 ^ 31 ∨
      2 ^ 31 ≤ last.data.length ∧ last.Plain

/-! ### Sending -/

/-- Which sizes are positive as an `int32_t`. -/
theorem toInt32_pos (n : Nat) : 0 < toInt32 n ↔ 0 < n % 2 ^ 32 ∧ n % 2 ^ 32 < 2 ^ 31 := by
  rw [toInt32, Int.bmod_def]
  omega

/-- **Exactly when sending reports success.** -/
theorem sendsWell_iff (rand : Nat) {msg : WSFrameMessage} (client fin : Bool) {l : Link} {bs : Bytes}
    (hlt : msg.data.length < sizeMod) (hl : l.Holds bs) :
    SendsWell rand msg client fin l ↔ SendCounts msg.data.length := by
  obtain ⟨l', hrun, -, hclosed⟩ := (ends_WSSendMessage rand client fin hlt).run hl
  have hpos : 0 < msg.data.length ↔ msg.data ≠ [] := List.length_pos_iff
  have hcast : ((msg.data.length : Int) + 2) = ((msg.data.length + 2 : Nat) : Int) := rfl
  rw [SendCounts, hpos, ← toInt32_pos, ← hcast]
  constructor
  · rintro ⟨r, msg', l₁, hrun', hr, hopen⟩
    obtain ⟨hres, rfl⟩ := Res.ok.inj (hrun.symm.trans hrun')
    have hne : msg.data ≠ [] := by
      rw [hclosed] at hopen
      exact of_decide_eq_false hopen
    rw [if_neg hne] at hres
    rw [← (Prod.mk.inj hres).1] at hr
    exact ⟨hne, hr⟩
  · rintro ⟨hne, hr⟩
    rw [if_neg hne] at hrun
    exact ⟨_, _, l', hrun, hr, hclosed.trans (decide_eq_false hne)⟩

/-! ### One frame received -/

/-- The variables hold the data `bs`, with `cur_len` as an `int`. -/
structure RecvState.Has (st : RecvState) (opcode : Nat) (bs : Bytes) : Prop where
  opcode : st.opcode = opcode
  data : st.data = bs
  cur_len : st.cur_len = toInt32 bs.length

/-- What `WSRecvMessage` makes of the payload of a frame. -/
def DataFrame.kept (f : DataFrame) : Bytes :=
  if f.masked = true ∧ 2 ^ 31 ≤ f.data.length then maskData (leBytes 4 f.rand) f.data else f.data

/-- Which of them stay what they are. -/
theorem toNat_toInt32 {n : Nat} (h : n < 2 ^ 32) : (toInt32 n).toNat = if n < 2 ^ 31 then n else 0 := by
  rw [toInt32, Int.bmod_def]
  split <;> split <;> omega

/-- No byte is unmasked. -/
theorem unmask_zero (mask data : Bytes) (pos : Nat) : unmask mask data pos 0 = data := by
  refine List.ext_getElem List.length_mapIdx fun j h₁ h₂ => ?_
  simp only [unmask, List.getElem_mapIdx]
  rw [if_neg (by omega)]

variable {maxSize n : Nat} {client : Bool} {st : RecvState} {opcode : Nat} {data : Bytes} {f : DataFrame}

/-- The mask leaves the length. -/
theorem DataFrame.length_kept (f : DataFrame) : f.kept.length = f.data.length := by
  rw [DataFrame.kept]
  split
  · exact List.length_mapIdx
  · rfl

/-- The loop that unmasks. -/
theorem unmask_kept (hmasked : f.masked = true) (hlt : f.data.length < 2 ^ 32) :
    unmask (leBytes 4 f.rand) (data ++ maskData (leBytes 4 f.rand) f.data) data.length
      (toInt32 f.data.length).toNat = data ++ f.kept := by
  rw [toNat_toInt32 hlt, DataFrame.kept]
  split
  · rw [unmask_maskData, if_neg (by omega)]
  · rw [unmask_zero, if_pos ⟨hmasked, by omega⟩]

/-- **A frame with data is accepted** behind less than `2^31` bytes. -/
theorem recvFrame_kept {op : Int} (fin : Bool) (rest : Bytes) (hst : st.Has opcode data)
    (hop : op = 0 ∨ op = 1 ∨ op = 2) (hmask : client = false → f.masked = true) (hne : f.data ≠ [])
    (hsmall : data.length < 2 ^ 31) (hmax : data.length + f.data.length < maxSize) (hmax32 : maxSize < 2 ^ 32) :
    Yields (recvFrame maxSize client st) (f.bytes op fin ++ rest)
      (fun turn => ∃ st' : RecvState,
        st'.Has (nextOpcode opcode (WSFrameMessage.head ⟨op, f.data⟩ f.masked fin).opcode) (data ++ f.kept) ∧
        turn = if fin then .done ⟨st'.opcode, st'.data⟩ st' else .again st') rest := by
  intro l hl
  obtain ⟨field, key, hframe, hfield, hvalue, hkeylen, hkey⟩ :=
    frame_parts ⟨op, f.data⟩ f.rand f.masked fin (show f.data.length < sizeMod by rw [sizeMod]; omega)
  have hpaylen := length_wirePayload f.rand f.masked f.data
  have hpos : toUint64 st.cur_len = st.data.length := by
    rw [hst.cur_len, hst.data, toUint64_toInt32 (by omega), if_pos hsmall]
  rw [DataFrame.bytes, hframe, List.append_assoc, List.append_assoc, List.append_assoc] at hl
  obtain ⟨l₁, hl₁, hturn⟩ := recvFrame_isData maxSize client st hl (isData_head f.masked fin hop)
  obtain ⟨writes, l', hl', -, hres⟩ := recvData_accept maxSize client hl₁ hmask hfield hkeylen
    (by rw [hpaylen, hvalue]) (fun h => hne (List.length_eq_zero_iff.1 (by rw [← hpaylen, h]; rfl))) hpos
    (by rw [hst.data, hpaylen]; exact hmax) (by rw [hst.data, hpaylen, sizeMod]; omega)
  refine ⟨_, l', hturn.trans hres, ?_, hl'⟩
  -- the data after the loop that unmasks
  have hkept : (if (WSFrameMessage.head ⟨op, f.data⟩ f.masked fin).mask = true then
      unmask (if (WSFrameMessage.head ⟨op, f.data⟩ f.masked fin).mask then key else [0, 0, 0, 0])
        (data ++ wirePayload f.rand f.masked f.data) data.length (toInt32 f.data.length).toNat
      else data ++ wirePayload f.rand f.masked f.data) = data ++ f.kept := by
    have hhead : (WSFrameMessage.head ⟨op, f.data⟩ f.masked fin).mask = f.masked := rfl
    rw [hhead, wirePayload]
    split
    · rename_i hmasked
      rw [hkey hmasked, unmask_kept hmasked (by omega)]
    · rename_i hplain
      rw [DataFrame.kept, if_neg (fun h => hplain h.1)]
  rw [hpaylen, acceptPayload]
  dsimp only
  rw [hpos, hst.data, hkept, hst.opcode]
  refine ⟨_, ⟨rfl, rfl, ?_⟩, rfl⟩
  dsimp only
  rw [hst.cur_len, toInt32_add, List.length_append, f.length_kept, Int.natCast_add]

/-- **A frame ends the call** when it has no data, or when `cur_len` is negative. -/
theorem recvFrame_ends {op : Int} (fin : Bool) (rest : Bytes) {l : Link} (hl : l.Holds (f.bytes op fin ++ rest))
    (hst : st.Has opcode data) (hop : op = 0 ∨ op = 1 ∨ op = 2) (hmask : client = false → f.masked = true)
    (hbad : f.data = [] ∨ 2 ^ 31 ≤ data.length) (hmax : data.length + f.data.length < maxSize)
    (hmax32 : maxSize < 2 ^ 32) :
    ∃ st' l', recvFrame maxSize client st l = .ok (.stop st') l' := by
  obtain ⟨field, key, hframe, hfield, hvalue, hkeylen, hkey⟩ :=
    frame_parts ⟨op, f.data⟩ f.rand f.masked fin (show f.data.length < sizeMod by rw [sizeMod]; omega)
  rw [DataFrame.bytes, hframe, List.append_assoc, List.append_assoc, List.append_assoc] at hl
  obtain ⟨l₁, hl₁, hturn⟩ := recvFrame_isData maxSize client st hl (isData_head f.masked fin hop)
  obtain ⟨l₂, hl₂, hcheck⟩ := recvData_check maxSize client st hl₁ hmask hfield
  have hpos : toUint64 st.cur_len = if data.length < 2 ^ 31 then data.length else 2 ^ 64 - 2 ^ 32 + data.length := by
    rw [hst.cur_len, toUint64_toInt32 (by omega)]
  rw [hvalue, hpos] at hcheck
  dsimp only at hcheck
  rw [hturn, hcheck]
  by_cases hsmall : data.length < 2 ^ 31
  case neg =>
    rw [if_neg hsmall, if_pos (by rw [sizeMod]; omega)]
    exact ⟨st, l₂, rfl⟩
  -- an empty frame passes the check, and the read of no bytes answers `0`
  have hzero : f.data.length = 0 := List.length_eq_zero_iff.2 (hbad.resolve_right (by omega))
  rw [if_pos hsmall, if_neg (by rw [sizeMod]; omega)]
  obtain ⟨l₃, hl₃, hread⟩ := holds_recvMask (WSFrameMessage.head ⟨op, f.data⟩ f.masked fin).mask hl₂
  have hkeysize : maskSize (WSFrameMessage.head ⟨op, f.data⟩ f.masked fin).mask = key.length := hkeylen.symm
  rw [hkeysize, if_pos (by rw [List.length_append]; omega)] at hread
  rw [Act.bind_ok hread]
  dsimp only
  obtain ⟨writes, l₄, -, -, -, hstop⟩ := holds_recvPayload (WSFrameMessage.head ⟨op, f.data⟩ f.masked fin)
    (if (WSFrameMessage.head ⟨op, f.data⟩ f.masked fin).mask then
      (key ++ (wirePayload f.rand f.masked f.data ++ rest)).take 4 else [0, 0, 0, 0]) f.data.length
    { st with notes := st.notes ++ [.passed st.total f.data.length] } hl₃
    (by rw [hpos, hst.data, if_pos hsmall]) (by rw [hst.data, sizeMod]; omega)
  obtain ⟨data', hstop⟩ := hstop (.inl hzero)
  exact ⟨_, l₄, hstop⟩

/-! ### A message received -/

/-- No frame is empty, and what comes before the last one fits an `int`. -/
def Through (before : Nat) (init : List DataFrame) (last : DataFrame) : Prop :=
  (∀ f ∈ init, f.data ≠ []) ∧ last.data ≠ [] ∧ before + (framesData init).length < 2 ^ 31

/-- The data of one frame, then of the others. -/
theorem framesData_cons (f : DataFrame) (fs : List DataFrame) : framesData (f :: fs) = f.data ++ framesData fs :=
  List.flatMap_cons

/-- The data of some frames, then of the last. -/
theorem framesData_concat (fs : List DataFrame) (f : DataFrame) : framesData (fs ++ [f]) = framesData fs ++ f.data := by
  rw [framesData, List.flatMap_append, List.flatMap_singleton]
  rfl

/-- A frame has at least the two bytes of its head. -/
theorem length_le_messageBytes (last : DataFrame) : ∀ (init : List DataFrame) (op : Int),
    init.length ≤ (messageBytes op init last).length
  | [], _ => Nat.zero_le _
  | f :: init, op => by
    have hrest := length_le_messageBytes last init 0
    have htwo := (WsCall.sendMessage f.rand ⟨op, f.data⟩ f.masked false).two_le_frame
    rw [messageBytes, List.length_append, List.length_cons, DataFrame.bytes]
    rw [WsCall.frame] at htwo
    omega

/-- One frame, then the others. -/
theorem through_cons {before : Nat} {init : List DataFrame} {last : DataFrame} (hne : f.data ≠ []) :
    Through before (f :: init) last ↔ Through (before + f.data.length) init last := by
  rw [Through, Through, framesData_cons, List.length_append, List.forall_mem_cons, Nat.add_assoc]
  exact ⟨fun h => ⟨h.1.2, h.2⟩, fun h => ⟨⟨hne, h.1⟩, h.2⟩⟩

/-- The opcode of a message whose first frame has the opcode `op`. -/
def firstOpcode (opcode : Nat) (op : Int) : Nat := nextOpcode opcode (WSFrameMessage.head ⟨op, []⟩ false true).opcode

/-- The first frame's opcode is the message's. -/
theorem firstOpcode_zero (opcode : Nat) : firstOpcode opcode 0 = opcode := if_neg fun h => h.2 rfl

/-- A turn that stops closes the stream. -/
theorem recvLoop_stop {st' : RecvState} {l l' : Link} (h : recvFrame maxSize client st l = .ok (.stop st') l') :
    recvLoop maxSize client (n + 1) st l = .ok (none, st'.notes) { l' with closed := true } := by
  rw [recvLoop, Act.bind_ok h]
  rfl

/-- **The frames of a message, received from any of them on.** -/
theorem recvLoop_message {last : DataFrame} (rest : Bytes) (hmax32 : maxSize < 2 ^ 32) :
    ∀ (init : List DataFrame) {op : Int} {opcode n : Nat} {st : RecvState} {data : Bytes} {l : Link},
      st.Has opcode data → (op = 0 ∨ op = 1 ∨ op = 2) →
      (client = false → ∀ f ∈ init ++ [last], f.masked = true) →
      data.length + (framesData (init ++ [last])).length < maxSize → init.length < n →
      l.Holds (messageBytes op init last ++ rest) →
      ∃ msg notes l', recvLoop maxSize client n st l = .ok (msg, notes) l' ∧
        (Through data.length init last →
          msg = some ⟨firstOpcode opcode op, data ++ (framesData init ++ last.kept)⟩ ∧ l'.closed = false) ∧
        (¬ Through data.length init last → msg = none) := by
  intro init
  induction init with
  | nil =>
    intro op opcode n st data l hst hop hmask hmax hn hl
    obtain ⟨n, rfl⟩ : ∃ k, n = k + 1 := ⟨n - 1, by omega⟩
    have hmask' : client = false → last.masked = true := fun hc => hmask hc last List.mem_cons_self
    have hmax' : data.length + last.data.length < maxSize := by
      simpa [framesData] using hmax
    by_cases hbad : last.data = [] ∨ 2 ^ 31 ≤ data.length
    · obtain ⟨st', l', hturn⟩ := recvFrame_ends true rest hl hst hop hmask' hbad hmax' hmax32
      refine ⟨none, _, _, recvLoop_stop hturn, fun h => ?_, fun _ => rfl⟩
      have hsmall := h.2.2
      rcases hbad with hnil | hbig
      · exact absurd hnil h.2.1
      · omega
    · obtain ⟨hne, hsmall⟩ := not_or.1 hbad
      obtain ⟨_, l', hturn, ⟨st', hst', rfl⟩, hl'⟩ :=
        recvFrame_kept true rest hst hop hmask' hne (by omega) hmax' hmax32 l hl
      refine ⟨some ⟨st'.opcode, st'.data⟩, st'.notes, l', ?_, fun _ => ⟨?_, hl'.opened⟩, fun h => ?_⟩
      · rw [recvLoop, Act.bind_ok hturn]
        rfl
      · rw [hst'.opcode, hst'.data]
        rfl
      · refine absurd ⟨List.forall_mem_nil _, hne, ?_⟩ h
        rw [framesData, List.flatMap_nil, List.length_nil]
        omega
  | cons f init ih =>
    intro op opcode n st data l hst hop hmask hmax hn hl
    rw [List.length_cons] at hn
    obtain ⟨n, rfl⟩ : ∃ k, n = k + 1 := ⟨n - 1, by omega⟩
    have hmask' : client = false → f.masked = true := fun hc => hmask hc f List.mem_cons_self
    rw [List.cons_append, framesData_cons, List.length_append] at hmax
    rw [messageBytes, List.append_assoc] at hl
    by_cases hbad : f.data = [] ∨ 2 ^ 31 ≤ data.length
    · obtain ⟨st', l', hturn⟩ := recvFrame_ends false _ hl hst hop hmask' hbad (by omega) hmax32
      refine ⟨none, _, _, recvLoop_stop hturn, fun h => ?_, fun _ => rfl⟩
      have hsmall := h.2.2
      rcases hbad with hnil | hbig
      · exact absurd hnil (h.1 f List.mem_cons_self)
      · omega
    · obtain ⟨hne, hsmall⟩ := not_or.1 hbad
      obtain ⟨_, l₁, hturn, ⟨st', hst', rfl⟩, hl₁⟩ :=
        recvFrame_kept false _ hst hop hmask' hne (by omega) (by omega) hmax32 l hl
      have hlen : (data ++ f.kept).length = data.length + f.data.length := by
        rw [List.length_append, f.length_kept]
      obtain ⟨msg, notes, l', hloop, hgood, hfail⟩ := ih hst' (.inl rfl)
        (fun hc g hg => hmask hc g (List.mem_cons_of_mem _ hg)) (by rw [hlen]; omega) (Nat.lt_of_succ_lt_succ hn) hl₁
      rw [hlen, ← through_cons hne] at hgood hfail
      refine ⟨msg, notes, l', ?_, fun h => ?_, hfail⟩
      · rw [recvLoop, Act.bind_ok hturn]
        exact hloop
      · obtain ⟨hmsg, hopen⟩ := hgood h
        have hkept : f.kept = f.data := by
          have hthrough := h.2.2
          rw [framesData_cons, List.length_append] at hthrough
          rw [DataFrame.kept, if_neg (by omega)]
        refine ⟨?_, hopen⟩
        rw [hmsg, firstOpcode_zero, hkept, framesData_cons, List.append_assoc, List.append_assoc]
        rfl

/-! ### The law -/

/-- From four bytes on a mask leaves the data only when it is zero. -/
theorem maskData_iff_plain (hlen : 4 ≤ f.data.length) :
    maskData (leBytes 4 f.rand) f.data = f.data ↔ f.Plain := by
  rw [maskData_eq_self, DataFrame.Plain]
  constructor
  · intro h
    have h₀ := h 0 (by omega)
    have h₁ := h 1 (by omega)
    have h₂ := h 2 (by omega)
    have h₃ := h 3 (by omega)
    simp only [leBytes, List.getD_cons_zero, List.getD_cons_succ, Nat.reduceMod] at h₀ h₁ h₂ h₃
    simp only [leBytes, h₀, h₁, h₂, h₃]
  · intro h i _
    rw [h]
    obtain hi | hi | hi | hi : i % 4 = 0 ∨ i % 4 = 1 ∨ i % 4 = 2 ∨ i % 4 = 3 := by omega
    all_goals
      rw [hi]
      rfl

/-- The last frame is kept as it was sent. -/
theorem kept_eq_data (last : DataFrame) :
    last.kept = last.data ↔ (last.masked = true → last.data.length < 2 ^ 31 ∨ last.Plain) := by
  rw [DataFrame.kept]
  split
  · rename_i h
    rw [maskData_iff_plain (by omega)]
    exact ⟨fun hp _ => .inr hp, fun hp => (hp h.1).resolve_left (by omega)⟩
  · rename_i h
    refine ⟨fun _ hm => .inl ?_, fun _ => rfl⟩
    exact Nat.lt_of_not_le fun hle => h ⟨hm, hle⟩

/-- No index overflows in a frame that ends within `2^31` bytes. -/
theorem index_fits_iff {before : Nat} {size : Nat} (hpos : 0 < size) (hlt : size < 2 ^ 31) :
    (∀ i : Nat, (i : Int) < toInt32 size → before + i < 2 ^ 31) ↔ before + size ≤ 2 ^ 31 := by
  rw [toInt32_natCast hlt]
  constructor
  · intro h
    have hend := h (size - 1) (by omega)
    omega
  · intro h i hi
    omega

/-- **No index overflows** exactly when it does not in the last frame. -/
theorem indexFits_append {last : DataFrame} (hlast : last.data ≠ []) (hlt : last.data.length < 2 ^ 32) :
    ∀ (init : List DataFrame) (before : Nat), Through before init last →
      (IndexFits before (init ++ [last]) ↔ (last.masked = true → last.data.length < 2 ^ 31 →
        before + (framesData init).length + last.data.length ≤ 2 ^ 31)) := by
  intro init
  have hpos := List.length_pos_iff.2 hlast
  induction init with
  | nil =>
    intro before _
    have hzero : (framesData []).length = 0 := rfl
    rw [List.nil_append, IndexFits, IndexFits, and_true, hzero, Nat.add_zero]
    refine imp_congr_right fun _ => ?_
    constructor
    · intro h hsmall
      exact (index_fits_iff hpos hsmall).1 h
    · intro h i hi
      rcases Nat.lt_or_ge last.data.length (2 ^ 31) with hsmall | hbig
      · exact (index_fits_iff hpos hsmall).2 (h hsmall) i hi
      · -- a length from `2^31` on is negative, and the loop does not run
        have hneg := toNat_toInt32 hlt
        rw [if_neg (by omega)] at hneg
        omega
  | cons f init ih =>
    intro before h
    have hne : f.data ≠ [] := h.1 f List.mem_cons_self
    have hsum := h.2.2
    have hfpos := List.length_pos_iff.2 hne
    rw [framesData_cons, List.length_append] at hsum
    rw [List.cons_append, IndexFits, ih _ ((through_cons hne).1 h), framesData_cons, List.length_append,
      Nat.add_assoc before]
    refine and_iff_right fun _ => ?_
    exact (index_fits_iff hfpos (by omega)).2 (by omega)

/-- **Exactly when receiving returns the message.** -/
theorem recvsWell_iff (hmax32 : maxSize < 2 ^ 32) {op : Int} (hop : op = 0 ∨ op = 1 ∨ op = 2)
    {init : List DataFrame} {last : DataFrame} (hmask : client = false → ∀ f ∈ init ++ [last], f.masked = true)
    (hmax : (framesData (init ++ [last])).length < maxSize) {rest : Bytes} {l : Link}
    (hl : l.Holds (messageBytes op init last ++ rest)) :
    RecvsWell maxSize client op init last l ↔ RecvCounts 0 init last := by
  have hinit : RecvState.init.Has 0 [] := ⟨rfl, rfl, by decide⟩
  have hfuel : init.length < l.input.length + 1 := by
    have hle := length_le_messageBytes last init op
    rw [hl.input, List.length_append]
    omega
  obtain ⟨msg, notes, l', hcall, hgood, hfail⟩ := recvLoop_message rest hmax32 init hinit hop hmask
    (by rw [List.length_nil]; omega) hfuel hl
  rw [List.length_nil] at hgood hfail
  have hop' : ((firstOpcode 0 op : Nat) : Int) = op := nextOpcode_first [] false true hop
  have hdata := framesData_concat init last
  have hlen : last.data.length < 2 ^ 32 := by
    rw [hdata, List.length_append] at hmax
    omega
  constructor
  · rintro ⟨⟨notes', l₁, hcall', hopen⟩, hindex⟩
    obtain ⟨hmsg, rfl⟩ := Res.ok.inj (hcall.symm.trans hcall')
    obtain ⟨rfl, -⟩ := Prod.mk.inj hmsg
    have hthrough : Through 0 init last := by
      by_contra hnot
      cases hfail hnot
    obtain ⟨heq, -⟩ := hgood hthrough
    have hkept : last.kept = last.data := by
      have hsame := congrArg WSFrameMessage.data (Option.some.inj heq)
      dsimp only at hsame
      rw [hdata, List.nil_append] at hsame
      exact (List.append_cancel_left hsame).symm
    rw [kept_eq_data] at hkept
    rw [indexFits_append hthrough.2.1 hlen init 0 hthrough] at hindex
    refine ⟨hthrough.1, hthrough.2.1, hthrough.2.2, fun hm => ?_⟩
    rcases Nat.lt_or_ge last.data.length (2 ^ 31) with hsmall | hbig
    · exact .inl ⟨hsmall, hindex hm hsmall⟩
    · exact .inr ⟨hbig, (hkept hm).resolve_left (by omega)⟩
  · intro h
    have hthrough : Through 0 init last := ⟨h.nonempty, h.nonempty_last, h.small⟩
    have hkept : last.kept = last.data := by
      rw [kept_eq_data]
      intro hm
      exact (h.unmasks hm).imp And.left And.right
    obtain ⟨hmsg, hopen⟩ := hgood hthrough
    refine ⟨⟨notes, l', ?_, hopen⟩, ?_⟩
    · rw [hdata, ← hkept, ← hop']
      rw [hmsg] at hcall
      exact hcall
    · rw [indexFits_append hthrough.2.1 hlen init 0 hthrough]
      intro hm hsmall
      exact ((h.unmasks hm).resolve_right fun hbig => by omega).2

/-- **Exactly when success is reported** on streams whose reads and writes all succeed.  `WSSendMessage`
returns a positive value and leaves the stream open when there is data and the `int32_t` of its
size and two is positive; and `WSRecvMessage`, fed the frames of a message below the limit, returns
it and leaves the stream open when no frame is empty and, for `2^31` bytes and more, `RecvCounts`
holds. -/
theorem ws_success_iff (maxSize : Nat) (hmax32 : maxSize < 2 ^ 32) (op : Int) (hop : op = 0 ∨ op = 1 ∨ op = 2)
    (rand : Nat) (data : Bytes) (hdata : data.length < sizeMod) (sends fin : Bool) (out : Link)
    (hout : out.Holds out.input) (client : Bool) (init : List DataFrame) (last : DataFrame)
    (hmask : client = false → ∀ f ∈ init ++ [last], f.masked = true)
    (hmax : (framesData (init ++ [last])).length < maxSize) (rest : Bytes) (l : Link)
    (hl : l.Holds (messageBytes op init last ++ rest)) :
    (SendsWell rand ⟨op, data⟩ sends fin out ↔ SendCounts data.length) ∧
      (RecvsWell maxSize client op init last l ↔ RecvCounts 0 init last) :=
  ⟨sendsWell_iff rand sends fin hdata hout, recvsWell_iff hmax32 hop hmask hmax hl⟩

/-- `"hi"` in two masked frames. -/
def hiFrames : DataFrame × DataFrame := (⟨true, 1, str "h"⟩, ⟨true, 2, str "i"⟩)

/-- The statement at a message of one frame. -/
theorem ws_success_iff_hiFrames :
    (SendsWell 1 ⟨1, str "hi"⟩ true true idleLink ↔ SendCounts 2) ∧
      (RecvsWell 1024 false 1 [hiFrames.1] hiFrames.2 (freshLink (messageBytes 1 [hiFrames.1] hiFrames.2)) ↔
        RecvCounts 0 [hiFrames.1] hiFrames.2) := by
  refine ws_success_iff 1024 (by decide) 1 (.inr (.inl rfl)) 1 (str "hi") (by decide) true true idleLink
    holds_idleLink false [hiFrames.1] hiFrames.2 ?_ (by decide) [] _ ?_
  · intro _ f hf
    simp only [List.cons_append, List.nil_append, List.mem_cons, List.not_mem_nil, or_false] at hf
    rcases hf with rfl | rfl <;> rfl
  · rw [List.append_nil]
    exact ⟨rfl, rfl, nofun, nofun⟩

/-- An empty masked frame. -/
def emptyFrame : DataFrame := ⟨true, 0, []⟩

/-- **The empty message** is not sent and not received: both ends report a failure and close their
streams, though every byte of the frame has gone through. -/
theorem ws_empty_message :
    (∃ l', (WSSendMessage 0 ⟨1, []⟩ true true).run idleLink = .ok (-1, ⟨1, []⟩) l' ∧
      l'.output = emptyFrame.bytes 1 true ∧ l'.closed = true) ∧
    (∃ notes l', WSRecvMessage 1024 false (freshLink (emptyFrame.bytes 1 true)) = .ok (none, notes) l' ∧
      l'.input = [] ∧ l'.closed = true) ∧
    ¬SendsWell 0 ⟨1, []⟩ true true idleLink ∧
    ¬RecvsWell 1024 false 1 [] emptyFrame (freshLink (emptyFrame.bytes 1 true)) := by
  have hsend : (WSSendMessage 0 ⟨1, []⟩ true true).run idleLink =
      .ok (-1, ⟨1, []⟩) { idleLink with output := emptyFrame.bytes 1 true, closed := true } := by decide
  have hrecv : WSRecvMessage 1024 false (freshLink (emptyFrame.bytes 1 true)) =
      .ok (none, [.passed 0 0, .filled 0 0 0 []]) { freshLink [] with closed := true } := by decide
  refine ⟨⟨_, hsend, rfl, rfl⟩, ⟨_, _, hrecv, rfl, rfl⟩, ?_, ?_⟩
  · rintro ⟨r, msg', l', hrun, -, hopen⟩
    obtain ⟨-, rfl⟩ := Res.ok.inj (hsend.symm.trans hrun)
    cases hopen
  · rintro ⟨⟨notes, l', hcall, -⟩, -⟩
    obtain ⟨hnone, -⟩ := Res.ok.inj (hrecv.symm.trans hcall)
    cases (Prod.mk.inj hnone).1

end Http
end Wuchat
