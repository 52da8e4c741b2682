/-
# Receiving WebSocket messages

`WSRecvMessage` in `http/ws_session.cpp`.

`recvFrame` is one turn of its loop.  The running length `cur_len` is an `int` and the
length of a frame a `uint64_t`, so their sum is taken modulo `2^64` after `cur_len` is
sign-extended.  `data.resize` and the read at `&data[cur_len]` use that sum and that
index as they are; a read that leaves the buffer is a fault of the stream program.
The loop that unmasks runs over the `int` value of the length.

`recvLoop` has a turn for every unit of fuel.  A turn that goes on has taken a head off
the stream, so `WSRecvMessage` takes one unit more than there are bytes.

For the proofs about lengths every frame that passes the size check is noted, with the
true sum of the lengths accepted before it, and so is every payload read (`Note`).
-/

import Wuchat.Http.WsFrame
import Wuchat.Streams.Exact

namespace Wuchat
namespace Http

open Foundation Streams

/-- A `size_t` or `uint64_t` from an `int`. -/
def toUint64 (v : Int) : Nat := (v % 2 ^ 64).toNat

/-- `data.resize(n)`. -/
def resize (data : Bytes) (n : Nat) : Bytes := data.take n ++ List.replicate (n - data.length) 0

/-- `data[pos + i] ^= mask[i % 4]` for `i` below `n`. -/
def unmask (mask data : Bytes) (pos n : Nat) : Bytes :=
  data.mapIdx fun j b => if pos ≤ j ∧ j < pos + n then b ^^^ mask.getD ((j - pos) % 4) 0 else b

/-- What is noted of a frame: that it passed the size check, with the sum `before` of the
lengths accepted before it; and where in the buffer of `size` bytes its payload was
written. -/
inductive Note
  | passed (before length : Nat)
  | filled (before length size : Nat) (writes : List (Nat × Nat))
  deriving DecidableEq, Repr

/-- The variables of `WSRecvMessage` between two turns of its loop; `total` and `notes`
are for the proofs. -/
structure RecvState where
  opcode : Nat
  data : Bytes
  cur_len : Int
  total : Nat
  notes : List Note
  deriving DecidableEq, Repr

/-- How a turn of the loop ends. -/
inductive Turn
  | again (st : RecvState)
  | stop (st : RecvState)
  | done (msg : WSFrameMessage) (st : RecvState)
  deriving DecidableEq, Repr

/-- The length of a data frame; `none` when the stream ends. -/
def recvLength (payload : Fin 128) : Act (Option Nat) :=
  if payload = 126 then do
    let (v, len, _) ← Link.readFixSize [0, 0] 0 2
    pure (if v = 0 then none else some (byteSwap 2 (leValue len)))
  else if payload = 127 then do
    let (v, len, _) ← Link.readFixSize [0, 0, 0, 0, 0, 0, 0, 0] 0 8
    pure (if v = 0 then none else some (byteSwap 8 (leValue len)))
  else pure (some payload.val)

/-- The mask key of a data frame; `none` when the stream ends. -/
def recvMask (masked : Bool) : Act (Option Bytes) :=
  if masked then do
    let (v, mask, _) ← Link.readFixSize [0, 0, 0, 0] 0 4
    pure (if v = 0 then none else some mask)
  else pure (some [0, 0, 0, 0])

/-- What is done with a payload once it is in the buffer. -/
def acceptPayload (head : WSFrameHead) (mask : Bytes) (length : Nat) (st : RecvState) : Turn :=
  let data :=
    if head.mask then unmask mask st.data (toUint64 st.cur_len) (toInt32 length).toNat else st.data
  let opcode := if st.opcode = 0 ∧ head.opcode ≠ WSFrameHead.CONTINUE then head.opcode.val else st.opcode
  let st' : RecvState := ⟨opcode, data, toInt32 (st.cur_len + length), st.total + length, st.notes⟩
  if head.fin then .done ⟨opcode, data⟩ st' else .again st'

/-- The payload of a data frame of the given length, into the buffer. -/
def recvPayload (head : WSFrameHead) (mask : Bytes) (length : Nat) (st : RecvState) : Act Turn := do
  let pos := toUint64 st.cur_len
  let buf := resize st.data ((pos + length) % sizeMod)
  let (v, data, writes) ← Link.readFixSize buf pos length
  let st' := { st with
    data := data
    notes := st.notes ++ [.filled st.total length buf.length writes] }
  pure (if v = 0 then .stop st' else acceptPayload head mask length st')

/-- A data frame, after its head. -/
def recvData (maxSize : Nat) (client : Bool) (head : WSFrameHead) (st : RecvState) : Act Turn :=
  if !client ∧ !head.mask then pure (.stop st)
  else do
    let some length ← recvLength head.payload | pure (.stop st)
    if maxSize ≤ (toUint64 st.cur_len + length) % sizeMod then pure (.stop st)
    else do
      let st' := { st with notes := st.notes ++ [.passed st.total length] }
      let some mask ← recvMask head.mask | pure (.stop st')
      recvPayload head mask length st'

/-- The opcodes of data frames. -/
def WSFrameHead.IsData (head : WSFrameHead) : Prop :=
  head.opcode = CONTINUE ∨ head.opcode = TEXT_FRAME ∨ head.opcode = BIN_FRAME

/-- Whether a head is that of a data frame can be computed. -/
instance (head : WSFrameHead) : Decidable head.IsData := inferInstanceAs (Decidable (_ ∨ _))

/-- A frame, after its head. -/
def recvAfterHead (maxSize : Nat) (client : Bool) (head : WSFrameHead) (st : RecvState) : Act Turn :=
  if head.opcode = WSFrameHead.PING then do
    let r ← WSPong.run
    pure (if r ≤ 0 then .stop st else .again st)
  else if head.opcode = WSFrameHead.PONG then pure (.again st)
  else if head.IsData then recvData maxSize client head st
  else pure (.again st)

/-- One turn of the loop of `WSRecvMessage`. -/
def recvFrame (maxSize : Nat) (client : Bool) (st : RecvState) : Act Turn := do
  let (v, bytes, _) ← Link.readFixSize [0, 0] 0 2
  if v = 0 then pure (.stop st)
  else recvAfterHead maxSize client (.ofBytes (bytes.getD 0 0) (bytes.getD 1 0)) st

/-- The loop of `WSRecvMessage`, for as many turns as there is fuel. -/
def recvLoop (maxSize : Nat) (client : Bool) : Nat → RecvState → Act (Option WSFrameMessage × List Note)
  | 0, _ => fun _ => .hang
  | n + 1, st => do
    match ← recvFrame maxSize client st with
    | .again st' => recvLoop maxSize client n st'
    | .stop st' => do
      Link.close
      pure (none, st'.notes)
    | .done msg st' => pure (some msg, st'.notes)

/-- The variables of `WSRecvMessage` at its start. -/
def RecvState.init : RecvState := ⟨0, [], 0, 0, []⟩

/-- `WSRecvMessage(stream, client)`, with the value of `websocket.message.max_size`. -/
def WSRecvMessage (maxSize : Nat) (client : Bool) : Act (Option WSFrameMessage × List Note) := fun l =>
  recvLoop maxSize client (l.input.length + 1) .init l

/-! ### What the parts of a turn do -/

/-- The size of the extended length field. -/
def lengthSize (payload : Fin 128) : Nat := if payload = 126 then 2 else if payload = 127 then 8 else 0

/-- The length an extended length field stands for. -/
def lengthValue (payload : Fin 128) (field : Bytes) : Nat :=
  if payload = 126 then byteSwap 2 (leValue field)
  else if payload = 127 then byteSwap 8 (leValue field)
  else payload.val

/-- The size of the mask key. -/
def maskSize (masked : Bool) : Nat := if masked then 4 else 0

/-- A length fits a `size_t`. -/
theorem lengthValue_lt (payload : Fin 128) (field : Bytes) : lengthValue payload field < sizeMod := by
  have hswap : ∀ n v, byteSwap n v < 256 ^ n := fun n v => by
    have := leValue_lt (leBytes n v).reverse
    rwa [List.length_reverse, length_leBytes] at this
  unfold lengthValue
  split
  · exact Nat.lt_trans (hswap 2 _) (by decide)
  split
  · exact hswap 8 _
  · exact Nat.lt_trans payload.isLt (by decide)

variable {l : Link} {bs : Bytes}

/-- A field of `n` bytes read into a variable of its own: its value, or nothing at the
end of the stream. -/
theorem holds_readField {β : Type} (n : Nat) (old : Bytes) (g : Bytes → β) (hl : l.Holds bs)
    (hold : old.length = n) (hn : 0 < n) (hlt : n < sizeMod) :
    ∃ l', l'.Holds (bs.drop n) ∧
      (do
        let (v, field, _) ← Link.readFixSize old 0 n
        pure (if v = 0 then none else some (g field)) : Act (Option β)) l =
        .ok (if n ≤ bs.length then some (g (bs.take n)) else none) l' := by
  obtain ⟨ret, writes, l', heq, hl', -, hret⟩ := hl.readFixSize old 0 n (by omega) (by omega)
  refine ⟨_, hl', ?_⟩
  rw [Act.bind_ok heq]
  dsimp only
  rw [hret]
  split
  · have hnil : old.drop (0 + (bs.take n).length) = [] := by
      rw [List.length_take]
      exact List.drop_of_length_le (by omega)
    rw [if_neg (by omega), hnil, List.take_zero, List.nil_append, List.append_nil]
    rfl
  · rfl

/-- `recvLength` reads the extended length field. -/
theorem holds_recvLength (payload : Fin 128) (hl : l.Holds bs) :
    ∃ l', l'.Holds (bs.drop (lengthSize payload)) ∧ recvLength payload l =
      .ok (if lengthSize payload ≤ bs.length then
        some (lengthValue payload (bs.take (lengthSize payload))) else none) l' := by
  unfold recvLength lengthSize lengthValue
  split
  · exact holds_readField 2 [0, 0] (fun field => byteSwap 2 (leValue field)) hl rfl (by decide) (by decide)
  split
  · exact holds_readField 8 [0, 0, 0, 0, 0, 0, 0, 0] (fun field => byteSwap 8 (leValue field)) hl rfl
      (by decide) (by decide)
  · exact ⟨l, hl, rfl⟩

/-- `recvMask` reads the mask key. -/
theorem holds_recvMask (masked : Bool) (hl : l.Holds bs) :
    ∃ l', l'.Holds (bs.drop (maskSize masked)) ∧ recvMask masked l =
      .ok (if maskSize masked ≤ bs.length then
        some (if masked then bs.take 4 else [0, 0, 0, 0]) else none) l' := by
  unfold recvMask maskSize
  cases masked with
  | false => exact ⟨l, hl, rfl⟩
  | true => exact holds_readField 4 [0, 0, 0, 0] id hl rfl (by decide) (by decide)

/-- A longer size adds zero bytes. -/
theorem resize_append (data : Bytes) (n : Nat) :
    resize data (data.length + n) = data ++ List.replicate n 0 := by
  rw [resize, List.take_of_length_le (by omega), Nat.add_sub_cancel_left]

/-- `recvPayload` fills the buffer behind the data received before, when `cur_len` is the
length of that data. -/
theorem holds_recvPayload (head : WSFrameHead) (mask : Bytes) (length : Nat) (st : RecvState)
    (hl : l.Holds bs) (hpos : toUint64 st.cur_len = st.data.length)
    (hlt : st.data.length + length < sizeMod) :
    ∃ writes l', l'.Holds (bs.drop length) ∧
      (∀ w ∈ writes, st.data.length ≤ w.1 ∧ w.1 + w.2 ≤ st.data.length + length) ∧
      (0 < length → length ≤ bs.length → recvPayload head mask length st l =
        .ok (acceptPayload head mask length { st with
          data := st.data ++ bs.take length
          notes := st.notes ++ [.filled st.total length (st.data.length + length) writes] }) l') ∧
      (length = 0 ∨ bs.length < length → ∃ data, recvPayload head mask length st l =
        .ok (.stop { st with
          data := data
          notes := st.notes ++ [.filled st.total length (st.data.length + length) writes] }) l') := by
  have hbuf : (resize st.data (st.data.length + length)).length = st.data.length + length := by
    rw [resize_append, List.length_append, List.length_replicate]
  obtain ⟨ret, writes, l', heq, hl', hwrites, hret⟩ := hl.readFixSize
    (resize st.data (st.data.length + length)) st.data.length length (by omega) (by omega)
  have hmod : (st.data.length + length) % sizeMod = st.data.length + length := Nat.mod_eq_of_lt hlt
  generalize hdata : (resize st.data (st.data.length + length)).take st.data.length ++ (bs.take length ++
    (resize st.data (st.data.length + length)).drop (st.data.length + (bs.take length).length)) = data
    at heq
  have hstep : recvPayload head mask length st l =
      let st' := { st with
        data := data
        notes := st.notes ++ [.filled st.total length (st.data.length + length) writes] }
      .ok (if ret = 0 then .stop st' else acceptPayload head mask length st') l' := by
    unfold recvPayload
    dsimp only
    rw [hpos, hmod, Act.bind_ok heq, hbuf]
    rfl
  refine ⟨writes, l', hl', hwrites, fun hpos' hle => ?_, fun hshort => ⟨data, ?_⟩⟩
  · have htake : (bs.take length).length = length := by
      rw [List.length_take]
      omega
    rw [htake, List.drop_of_length_le (by omega), List.append_nil, resize_append, List.take_left] at hdata
    have hret' : ret ≠ 0 := by
      rw [hret, if_pos hle]
      omega
    rw [hstep, hdata]
    dsimp only
    rw [if_neg hret']
  · have hzero : ret = 0 := by
      rw [hret]
      split <;> omega
    rw [hstep]
    dsimp only
    rw [if_pos hzero]

/-- **A call that has the stream to itself writes what it emits.** -/
theorem holds_run {α : Type} : ∀ {m : Sender α} {l : Link}, m.Clean → l.Holds bs →
    ∃ l', m.run l = .ok m.result l' ∧ l'.output = l.output ++ m.emitted ∧ l'.Holds bs
  | .ret _, l, _, hl => ⟨l, rfl, (List.append_nil _).symm, hl⟩
  | .writeFixSize buf k, l, hm, hl => by
    obtain ⟨writes, hw, hl₁⟩ := hl.writeFixSize hm.1
    obtain ⟨l', hk, hout, hl'⟩ := holds_run hm.2 hl₁
    refine ⟨l', ?_, ?_, hl'⟩
    · rw [Sender.run, Act.bind_ok hw, hk, Sender.result]
    · rw [hout, Sender.emitted, List.append_assoc]
  | .close _, _, hm, _ => hm.elim

/-- **A turn starts with a head**, the next two bytes. -/
theorem recvFrame_head (maxSize : Nat) (client : Bool) (st : RecvState) (head : WSFrameHead)
    {rest : Bytes} (hl : l.Holds (head.toBytes ++ rest)) :
    ∃ l', l'.Holds rest ∧
      recvFrame maxSize client st l = recvAfterHead maxSize client head st l' := by
  obtain ⟨ret, writes, l', heq, hl', -, hret⟩ := hl.readFixSize [0, 0] 0 2 (by decide) (by decide)
  have hlen : 2 ≤ (head.toBytes ++ rest).length := by
    rw [List.length_append, WSFrameHead.length_toBytes]
    omega
  have hpos : ret ≠ 0 := by
    rw [hret, if_pos hlen]
    decide
  refine ⟨l', hl', ?_⟩
  rw [recvFrame, Act.bind_ok heq]
  dsimp only
  rw [if_neg hpos]
  congr 1
  exact head.ofBytes_toBytes rfl

/-- A stream that ends before a head ends the loop. -/
theorem recvFrame_short (maxSize : Nat) (client : Bool) (st : RecvState) (hl : l.Holds bs)
    (hlt : bs.length < 2) : ∃ l', recvFrame maxSize client st l = .ok (.stop st) l' := by
  obtain ⟨ret, writes, l', heq, -, -, hret⟩ := hl.readFixSize [0, 0] 0 2 (by decide) (by decide)
  have hzero : ret = 0 := by
    rw [hret, if_neg (by omega)]
  refine ⟨l', ?_⟩
  rw [recvFrame, Act.bind_ok heq]
  dsimp only
  rw [if_pos hzero]
  rfl

/-- **A head that is not of a data frame is skipped**, with a `PONG` for a `PING`. -/
theorem recvFrame_skip (maxSize : Nat) (client : Bool) (st : RecvState) {head : WSFrameHead}
    {rest : Bytes} (hl : l.Holds (head.toBytes ++ rest)) (hnot : ¬head.IsData) :
    ∃ l', recvFrame maxSize client st l = .ok (.again st) l' ∧ l'.Holds rest := by
  obtain ⟨l₁, hl₁, heq⟩ := recvFrame_head maxSize client st head hl
  rw [heq]
  unfold recvAfterHead
  split
  · obtain ⟨hclean, hresult⟩ := clean_sendControl WSFrameHead.PONG
    obtain ⟨l', hrun, -, hl'⟩ := holds_run hclean hl₁
    refine ⟨l', (Act.bind_ok hrun).trans ?_, hl'⟩
    rw [hresult]
    rfl
  split
  · exact ⟨l₁, rfl, hl₁⟩
  · exact ⟨l₁, rfl, hl₁⟩

/-- A data head leads to the data frame. -/
theorem recvFrame_isData (maxSize : Nat) (client : Bool) (st : RecvState) {head : WSFrameHead}
    {rest : Bytes} (hl : l.Holds (head.toBytes ++ rest)) (hdata : head.IsData) :
    ∃ l', l'.Holds rest ∧ recvFrame maxSize client st l = recvData maxSize client head st l' := by
  obtain ⟨l', hl', heq⟩ := recvFrame_head maxSize client st head hl
  have hping : head.opcode ≠ WSFrameHead.PING := by
    rcases hdata with h | h | h <;> rw [h] <;> decide
  have hpong : head.opcode ≠ WSFrameHead.PONG := by
    rcases hdata with h | h | h <;> rw [h] <;> decide
  refine ⟨l', hl', heq.trans ?_⟩
  rw [recvAfterHead, if_neg hping, if_neg hpong, if_pos hdata]

/-- **The size check comes after the length field**, on a data frame that is masked when it
has to be. -/
theorem recvData_check (maxSize : Nat) (client : Bool) {head : WSFrameHead} (st : RecvState)
    {field rest : Bytes} (hl : l.Holds (field ++ rest)) (hmask : client = false → head.mask = true)
    (hfield : field.length = lengthSize head.payload) :
    ∃ l', l'.Holds rest ∧ recvData maxSize client head st l =
      (if maxSize ≤ (toUint64 st.cur_len + lengthValue head.payload field) % sizeMod then pure (.stop st)
      else do
        let st' := { st with notes := st.notes ++ [.passed st.total (lengthValue head.payload field)] }
        let some mask ← recvMask head.mask | pure (.stop st')
        recvPayload head mask (lengthValue head.payload field) st' : Act Turn) l' := by
  have hguard : ¬((!client) = true ∧ (!head.mask) = true) := by
    rintro ⟨hc, hm⟩
    have := hmask (by simpa using hc)
    simp [this] at hm
  obtain ⟨l₁, hl₁, hlength⟩ := holds_recvLength head.payload hl
  rw [← hfield, List.take_left, if_pos (by rw [List.length_append]; omega)] at hlength
  rw [← hfield, List.drop_left] at hl₁
  refine ⟨l₁, hl₁, ?_⟩
  rw [recvData, if_neg hguard, Act.bind_ok hlength]

/-- **A data frame that passes the size check** and is there in full: one turn accepts its
payload. -/
theorem recvData_accept (maxSize : Nat) (client : Bool) {head : WSFrameHead} {st : RecvState}
    {field key payload rest : Bytes} (hl : l.Holds (field ++ (key ++ (payload ++ rest))))
    (hmask : client = false → head.mask = true) (hfield : field.length = lengthSize head.payload)
    (hkey : key.length = maskSize head.mask) (hpay : payload.length = lengthValue head.payload field)
    (hne : payload ≠ []) (hpos : toUint64 st.cur_len = st.data.length)
    (hmax : st.data.length + payload.length < maxSize)
    (hlt : st.data.length + payload.length < sizeMod) :
    ∃ writes l', l'.Holds rest ∧
      (∀ w ∈ writes, st.data.length ≤ w.1 ∧ w.1 + w.2 ≤ st.data.length + payload.length) ∧
      recvData maxSize client head st l =
        .ok (acceptPayload head (if head.mask then key else [0, 0, 0, 0]) payload.length { st with
          data := st.data ++ payload
          notes := st.notes ++ [.passed st.total payload.length] ++
            [.filled st.total payload.length (st.data.length + payload.length) writes] }) l' := by
  obtain ⟨l₁, hl₁, hcheck⟩ := recvData_check maxSize client st hl hmask hfield
  rw [← hpay, hpos, Nat.mod_eq_of_lt hlt, if_neg (by omega)] at hcheck
  obtain ⟨l₂, hl₂, hkeyread⟩ := holds_recvMask head.mask hl₁
  rw [← hkey, if_pos (by rw [List.length_append]; omega)] at hkeyread
  rw [← hkey, List.drop_left] at hl₂
  have hkeyval : (if head.mask = true then (key ++ (payload ++ rest)).take 4 else [0, 0, 0, 0]) =
      if head.mask = true then key else [0, 0, 0, 0] := by
    split
    · rename_i hm
      rw [maskSize, if_pos hm] at hkey
      rw [← hkey, List.take_left]
    · rfl
  rw [hkeyval] at hkeyread
  have hlen : 0 < payload.length := List.length_pos_iff.2 hne
  obtain ⟨writes, l₃, hl₃, hwrites, hread, -⟩ := holds_recvPayload head
    (if head.mask then key else [0, 0, 0, 0]) payload.length
    { st with notes := st.notes ++ [.passed st.total payload.length] } hl₂ hpos hlt
  have hread' := hread hlen (by rw [List.length_append]; omega)
  rw [List.take_left] at hread'
  rw [List.drop_left] at hl₃
  refine ⟨writes, l₃, hl₃, hwrites, ?_⟩
  rw [hcheck, Act.bind_ok hkeyread]
  exact hread'

end Http
end Wuchat
