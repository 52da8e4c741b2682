/-
# What is sent is received

One sender's calls on a stream, received at the other end.  A message is sent as a
first fragment with the opcode `TEXT_FRAME` or `BIN_FRAME` and further fragments with
`CONTINUE`, all but the last with `fin = false`; pings and pongs stand anywhere
between.  However the reads cut the bytes, each `WSRecvMessage` returns the next
message, with the opcode of its first fragment and the payloads of its fragments put
together, and stops at the first byte after it (`ws_round_trip`).

`recvFrame_data` says what one turn of the loop makes of a frame; a message is received by induction over its fragments
(`recvLoop_fragments`).
-/

import Wuchat.Http.WsRecv
import Wuchat.Http.WsWriters

namespace Wuchat
namespace Http

open Foundation Streams

/-! ### One frame -/

/-- Masking twice is nothing. -/
theorem unmask_maskData (mask pre bs : Bytes) :
    unmask mask (pre ++ maskData mask bs) pre.length bs.length = pre ++ bs := by
  have hlen : (maskData mask bs).length = bs.length := List.length_mapIdx
  refine List.ext_getElem (by simp [unmask, hlen]) fun j h₁ h₂ => ?_
  rw [List.length_append] at h₂
  simp only [unmask, List.getElem_mapIdx]
  rcases Nat.lt_or_ge j pre.length with hj | hj
  · rw [if_neg (by omega), List.getElem_append_left hj, List.getElem_append_left hj]
  · rw [if_pos (by omega), List.getElem_append_right hj, List.getElem_append_right hj]
    simp only [maskData, List.getElem_mapIdx]
    rw [UInt8.xor_assoc, UInt8.xor_self, UInt8.xor_zero]

/-- The length field of a frame stands for its length, in each of its three forms. -/
theorem lengthField_head (msg : WSFrameMessage) (client fin : Bool) (hlt : msg.data.length < sizeMod) :
    (lengthBytes msg.data.length).length = lengthSize (msg.head client fin).payload ∧
      lengthValue (msg.head client fin).payload (lengthBytes msg.data.length) = msg.data.length := by
  obtain ⟨h126, h127⟩ := head_payload msg client fin
  -- both extended forms: the bytes written are the swapped value in memory
  have hback : ∀ n, msg.data.length < 256 ^ n →
      byteSwap n (leValue (leBytes n (byteSwap n msg.data.length))) = msg.data.length := by
    intro n hn
    have hswap : byteSwap n msg.data.length < 256 ^ n := by
      have := leValue_lt (leBytes n msg.data.length).reverse
      rwa [List.length_reverse, length_leBytes] at this
    rw [leValue_leBytes, Nat.mod_eq_of_lt hswap, byteSwap_byteSwap, Nat.mod_eq_of_lt hn]
  unfold lengthBytes lengthSize lengthValue
  rcases Nat.lt_or_ge msg.data.length 126 with hs | hs
  · have h126' : (msg.head client fin).payload ≠ 126 := by
      rw [Ne, h126]
      omega
    have h127' : (msg.head client fin).payload ≠ 127 := by
      rw [Ne, h127]
      omega
    rw [if_pos hs, if_neg h126', if_neg h127', if_neg h126', if_neg h127']
    exact ⟨rfl, by simp [WSFrameMessage.head, hs]⟩
  rcases Nat.lt_or_ge msg.data.length 65536 with hm | hm
  · have h126' := h126.2 ⟨hs, hm⟩
    rw [if_neg (by omega), if_pos hm, if_pos h126', if_pos h126', length_leBytes]
    exact ⟨rfl, hback 2 (by omega)⟩
  · have h126' : (msg.head client fin).payload ≠ 126 := by
      rw [Ne, h126]
      omega
    have h127' := h127.2 hm
    rw [if_neg (by omega), if_neg (by omega), if_neg h126', if_pos h127', if_neg h126', if_pos h127',
      length_leBytes]
    exact ⟨rfl, hback 8 (by rw [sizeMod] at hlt; omega)⟩

/-- The variables hold the data `bs` of a message with the given opcode. -/
structure RecvState.At (st : RecvState) (opcode : Nat) (bs : Bytes) : Prop where
  opcode : st.opcode = opcode
  data : st.data = bs
  cur_len : st.cur_len = bs.length

/-- A size is itself as a `uint64_t`. -/
theorem toUint64_natCast {n : Nat} (h : n < sizeMod) : toUint64 n = n := by
  rw [sizeMod] at h
  unfold toUint64
  omega

/-- A size below 2³¹ is itself as an `int32_t`. -/
theorem toInt32_natCast {n : Nat} (h : n < 2 ^ 31) : toInt32 n = n := by
  unfold toInt32
  rw [Int.bmod_eq_of_le] <;> omega

/-- The opcode after a frame: that of the first frame that is not `CONTINUE`. -/
def nextOpcode (opcode : Nat) (frame : Fin 16) : Nat :=
  if opcode = 0 ∧ frame ≠ WSFrameHead.CONTINUE then frame.val else opcode

/-- How a turn ends that has received the data `bs` of a message so far. -/
def Receives (fin : Bool) (opcode : Nat) (bs : Bytes) (turn : Turn) : Prop :=
  ∃ st : RecvState, st.At opcode bs ∧ turn = if fin then .done ⟨opcode, bs⟩ st else .again st

variable {st : RecvState} {opcode : Nat} {data : Bytes}

/-- A payload is unmasked behind the data received before. -/
theorem receives_acceptPayload (head : WSFrameHead) (mask payload : Bytes) (notes : List Note)
    (hst : st.At opcode data) (hlt : data.length + payload.length < 2 ^ 31) :
    Receives head.fin (nextOpcode opcode head.opcode) (data ++ payload)
      (acceptPayload head mask payload.length { st with
        data := data ++ if head.mask then maskData mask payload else payload
        notes := notes }) := by
  have hpos : toUint64 st.cur_len = data.length := by
    rw [hst.cur_len]
    exact toUint64_natCast (by rw [sizeMod]; omega)
  have hcur : toInt32 (st.cur_len + payload.length) = ((data ++ payload).length : Nat) := by
    rw [hst.cur_len, ← Int.natCast_add, List.length_append]
    exact toInt32_natCast hlt
  have hsize : (toInt32 payload.length).toNat = payload.length := by
    rw [toInt32_natCast (by omega), Int.toNat_natCast]
  unfold acceptPayload
  dsimp only
  rw [hpos, hcur, hsize, hst.opcode]
  have hdata : (if head.mask = true then unmask mask (data ++ if head.mask = true then
      maskData mask payload else payload) data.length payload.length else data ++ if head.mask = true then
      maskData mask payload else payload) = data ++ payload := by
    split
    · exact unmask_maskData mask data payload
    · rfl
  rw [hdata]
  exact ⟨_, ⟨rfl, rfl, rfl⟩, rfl⟩

/-- The frame of a data message has a data head. -/
theorem isData_head {msg : WSFrameMessage} (client fin : Bool)
    (hop : msg.opcode = 0 ∨ msg.opcode = 1 ∨ msg.opcode = 2) : (msg.head client fin).IsData := by
  rcases hop with h | h | h <;> simp [WSFrameMessage.head, h, Fin.ext_iff, WSFrameHead.IsData,
    WSFrameHead.CONTINUE, WSFrameHead.TEXT_FRAME, WSFrameHead.BIN_FRAME]

/-- The payload of a frame as it is on the wire. -/
def wirePayload (rand : Nat) (client : Bool) (data : Bytes) : Bytes :=
  if client then maskData (leBytes 4 rand) data else data

/-- The mask leaves the length. -/
theorem length_wirePayload (rand : Nat) (client : Bool) (data : Bytes) :
    (wirePayload rand client data).length = data.length := by
  cases client with
  | false => rfl
  | true => exact List.length_mapIdx

/-- **The parts of a frame**: the head, the length field, the mask key and the payload. -/
theorem frame_parts (msg : WSFrameMessage) (rand : Nat) (client fin : Bool) (hlt : msg.data.length < sizeMod) :
    ∃ field key, msg.frame rand client fin =
        (msg.head client fin).toBytes ++ (field ++ (key ++ wirePayload rand client msg.data)) ∧
      field.length = lengthSize (msg.head client fin).payload ∧
      lengthValue (msg.head client fin).payload field = msg.data.length ∧
      key.length = maskSize client ∧ (client = true → key = leBytes 4 rand) := by
  obtain ⟨hfield, hvalue⟩ := lengthField_head msg client fin hlt
  refine ⟨lengthBytes msg.data.length, if client then leBytes 4 rand else [], ?_, hfield, hvalue, ?_, ?_⟩
  · rw [WSFrameMessage.frame]
    cases client <;> rfl
  · cases client with
    | false => rfl
    | true => exact length_leBytes 4 rand
  · rintro rfl
    rfl

/-- **A data frame is received** by one turn of the loop. -/
theorem recvFrame_data {maxSize : Nat} (msg : WSFrameMessage) (rand : Nat) (client fin : Bool)
    (rest : Bytes) (hst : st.At opcode data) (hop : msg.opcode = 0 ∨ msg.opcode = 1 ∨ msg.opcode = 2)
    (hne : msg.data ≠ []) (hmax : data.length + msg.data.length < maxSize)
    (hlt : data.length + msg.data.length < 2 ^ 31) :
    Yields (recvFrame maxSize (!client) st) (msg.frame rand client fin ++ rest)
      (Receives fin (nextOpcode opcode (msg.head client fin).opcode) (data ++ msg.data)) rest := by
  intro l hl
  have hdata := isData_head client fin hop
  have hpos : toUint64 st.cur_len = st.data.length := by
    rw [hst.cur_len, hst.data]
    exact toUint64_natCast (by rw [sizeMod]; omega)
  obtain ⟨field, key, hframe, hfield, hvalue, hkey, hmask⟩ :=
    frame_parts msg rand client fin (by rw [sizeMod]; omega)
  have hpaylen := length_wirePayload rand client msg.data
  rw [hframe, List.append_assoc, List.append_assoc, List.append_assoc] at hl
  obtain ⟨l₁, hl₁, hturn⟩ := recvFrame_isData maxSize (!client) st hl hdata
  obtain ⟨writes, l', hl', -, hres⟩ := recvData_accept maxSize (!client) hl₁
    (by cases client <;> simp [WSFrameMessage.head]) hfield hkey
    (by rw [hpaylen, hvalue]) (fun h => hne (List.length_eq_zero_iff.1 (by rw [← hpaylen, h]; rfl))) hpos
    (by rw [hst.data, hpaylen]; exact hmax) (by rw [hst.data, hpaylen, sizeMod]; omega)
  refine ⟨_, l', hturn.trans hres, ?_, hl'⟩
  have hpayload : wirePayload rand client msg.data = if (msg.head client fin).mask then
      maskData (if (msg.head client fin).mask then key else [0, 0, 0, 0]) msg.data else msg.data := by
    cases client with
    | false => rfl
    | true =>
      rw [hmask rfl]
      rfl
  rw [hpaylen, hst.data, hpayload]
  exact receives_acceptPayload (msg.head client fin) _ msg.data _ hst hlt

/-! ### Messages -/

/-- A `ping()` or `pong()` call. -/
inductive Control
  | ping
  | pong
  deriving DecidableEq, Repr

/-- The call. -/
def Control.call : Control → WsCall
  | ping => .ping
  | pong => .pong

/-- A fragment of a message: the controls sent before it, the mask key it draws, and its
payload. -/
structure Fragment where
  controls : List Control
  rand : Nat
  data : Bytes
  nonempty : data ≠ []

/-- A message in fragments. -/
structure Message where
  opcode : Int
  first : Fragment
  more : List Fragment
  isData : opcode = 1 ∨ opcode = 2

/-- The opcode of a text. -/
theorem isData_text : (1 : Int) = 1 ∨ (1 : Int) = 2 := Or.inl rfl

/-- The calls that send a message from a fragment on. -/
def fragmentCalls (client : Bool) : Int → Fragment → List Fragment → List WsCall
  | opcode, f, [] => f.controls.map Control.call ++ [.sendMessage f.rand ⟨opcode, f.data⟩ client true]
  | opcode, f, g :: more =>
    f.controls.map Control.call ++
      .sendMessage f.rand ⟨opcode, f.data⟩ client false :: fragmentCalls client 0 g more

/-- The payload from a fragment on. -/
def fragmentData (f : Fragment) (more : List Fragment) : Bytes := f.data ++ more.flatMap Fragment.data

/-- The calls that send a message. -/
def Message.calls (client : Bool) (m : Message) : List WsCall :=
  fragmentCalls client m.opcode m.first m.more

/-- The message as one end hands it over and the other gets it. -/
def Message.whole (m : Message) : WSFrameMessage := ⟨m.opcode, fragmentData m.first m.more⟩

/-- The bytes of calls. -/
def wireBytes (calls : List WsCall) : Bytes := calls.flatMap WsCall.frame

/-- Calls one after the other on a stream. -/
def sendAll : List WsCall → Act (List Int)
  | [] => pure []
  | c :: calls => do
    let r ← c.program.run
    let rs ← sendAll calls
    pure (r :: rs)

/-- Successive `WSRecvMessage` calls: what each returns, and the bytes it leaves. -/
def recvAll (maxSize : Nat) (client : Bool) : Nat → Act (List (Option WSFrameMessage × Bytes))
  | 0 => pure []
  | n + 1 => do
    let (msg, _) ← WSRecvMessage maxSize client
    let unread ← fun l => .ok l.input l
    let rest ← recvAll maxSize client n
    pure ((msg, unread) :: rest)

/-- The bytes of some calls, then of others. -/
theorem wireBytes_append (calls calls' : List WsCall) :
    wireBytes (calls ++ calls') = wireBytes calls ++ wireBytes calls' := List.flatMap_append

/-- The bytes of one call, then of the others. -/
theorem wireBytes_cons (c : WsCall) (calls : List WsCall) :
    wireBytes (c :: calls) = c.frame ++ wireBytes calls := List.flatMap_cons

/-- A frame has at least the two bytes of its head. -/
theorem WsCall.two_le_frame (c : WsCall) : 2 ≤ c.frame.length := by
  cases c with
  | sendMessage rand msg client fin =>
    rw [WsCall.frame, WSFrameMessage.frame, List.length_append, WSFrameHead.length_toBytes]
    omega
  | ping => exact Nat.le_refl _
  | pong => exact Nat.le_refl _

/-- Every call sends a byte at least. -/
theorem length_le_wireBytes (calls : List WsCall) : calls.length ≤ (wireBytes calls).length := by
  induction calls with
  | nil => exact Nat.le_refl _
  | cons c calls ih =>
    have := c.two_le_frame
    rw [wireBytes_cons, List.length_cons, List.length_append]
    omega

variable {maxSize : Nat} {client : Bool}

/-- A turn that goes on. -/
theorem recvLoop_again {n : Nat} {st st' : RecvState} {bs mid rest : Bytes}
    {R : Option WSFrameMessage × List Note → Prop}
    (h : Yields (recvFrame maxSize client st) bs (fun turn => turn = .again st') mid)
    (h' : Yields (recvLoop maxSize client n st') mid R rest) :
    Yields (recvLoop maxSize client (n + 1) st) bs R rest := by
  rw [recvLoop]
  refine h.bind ?_
  rintro _ rfl
  exact h'

/-- The controls before a fragment are skipped. -/
theorem recvLoop_controls {n : Nat} {st : RecvState} {bs rest : Bytes}
    {R : Option WSFrameMessage × List Note → Prop}
    (h : Yields (recvLoop maxSize client n st) bs R rest) : ∀ controls : List Control,
      Yields (recvLoop maxSize client (n + controls.length) st)
        (wireBytes (controls.map Control.call) ++ bs) R rest
  | [] => h
  | c :: controls => by
    rw [List.map_cons, wireBytes_cons, List.append_assoc, List.length_cons, ← Nat.add_assoc]
    refine recvLoop_again ?_ (recvLoop_controls h controls)
    intro l hl
    cases c with
    | ping =>
      obtain ⟨l', heq, hl'⟩ := recvFrame_skip maxSize client st hl (by decide)
      exact ⟨_, l', heq, rfl, hl'⟩
    | pong =>
      obtain ⟨l', heq, hl'⟩ := recvFrame_skip maxSize client st hl (by decide)
      exact ⟨_, l', heq, rfl, hl'⟩

/-- The opcode of a message after a fragment with the opcode `op`. -/
def joinedOpcode (opcode : Nat) (op : Int) : Nat := if op = 0 then opcode else op.toNat

/-- The opcodes a fragment may have: `CONTINUE` after the first, `TEXT_FRAME` or
`BIN_FRAME` at the start. -/
def FragmentOpcode (opcode : Nat) (op : Int) : Prop :=
  opcode ≠ 0 ∧ op = 0 ∨ opcode = 0 ∧ (op = 1 ∨ op = 2)

/-- The opcodes of a fragment. -/
theorem FragmentOpcode.cases {opcode : Nat} {op : Int} (h : FragmentOpcode opcode op) :
    op = 0 ∨ op = 1 ∨ op = 2 := by
  rcases h with ⟨-, h⟩ | ⟨-, h⟩
  · exact Or.inl h
  · exact Or.inr h

/-- The opcode behind a fragment is the message's. -/
theorem nextOpcode_head {opcode : Nat} {op : Int} (client fin : Bool) (data : Bytes)
    (h : FragmentOpcode opcode op) :
    nextOpcode opcode (WSFrameMessage.head ⟨op, data⟩ client fin).opcode = joinedOpcode opcode op ∧
      joinedOpcode opcode op ≠ 0 := by
  rcases h with ⟨h₀, rfl⟩ | ⟨rfl, rfl | rfl⟩
  · exact ⟨if_neg fun hc => h₀ hc.1, h₀⟩
  · exact ⟨rfl, by decide⟩
  · exact ⟨rfl, by decide⟩

/-- **A message is received from any of its fragments on.** -/
theorem recvLoop_fragments (client : Bool) (rest : Bytes) (more : List Fragment) :
    ∀ {opcode : Nat} {f : Fragment} {op : Int} {st : RecvState} {data : Bytes} {n : Nat},
      st.At opcode data → FragmentOpcode opcode op →
      (data ++ fragmentData f more).length < maxSize → (data ++ fragmentData f more).length < 2 ^ 31 →
      (fragmentCalls client op f more).length ≤ n →
      Yields (recvLoop maxSize (!client) n st) (wireBytes (fragmentCalls client op f more) ++ rest)
        (fun x => x.1 = some ⟨joinedOpcode opcode op, data ++ fragmentData f more⟩) rest := by
  induction more with
  | nil =>
    intro opcode f op st data n hst hop hmax hlt hn
    have hdata : fragmentData f [] = f.data := List.append_nil _
    rw [hdata, List.length_append] at hmax hlt
    rw [fragmentCalls, List.length_append, List.length_map, List.length_singleton] at hn
    obtain ⟨k, rfl⟩ : ∃ k, n = k + 1 + f.controls.length := ⟨n - 1 - f.controls.length, by omega⟩
    rw [fragmentCalls, wireBytes_append, List.append_assoc, hdata]
    refine recvLoop_controls ?_ f.controls
    rw [wireBytes_cons, List.append_assoc, recvLoop]
    refine (recvFrame_data _ _ client true _ hst hop.cases f.nonempty hmax
      hlt).bind ?_
    rintro _ ⟨st', -, rfl⟩
    refine yields_pure _ ?_
    rw [(nextOpcode_head client true f.data hop).1]
  | cons g more ih =>
    intro opcode f op st data n hst hop hmax hlt hn
    have hdata : data ++ fragmentData f (g :: more) = (data ++ f.data) ++ fragmentData g more := by
      simp [fragmentData]
    rw [hdata] at hmax hlt ⊢
    rw [fragmentCalls, List.length_append, List.length_map, List.length_cons] at hn
    obtain ⟨k, rfl⟩ : ∃ k, n = k + 1 + f.controls.length := ⟨n - 1 - f.controls.length, by omega⟩
    rw [fragmentCalls, wireBytes_append, List.append_assoc]
    refine recvLoop_controls ?_ f.controls
    have hmax' : data.length + f.data.length < maxSize := by
      rw [List.length_append, List.length_append] at hmax
      omega
    have hlt' : data.length + f.data.length < 2 ^ 31 := by
      rw [List.length_append, List.length_append] at hlt
      omega
    rw [wireBytes_cons, List.append_assoc, recvLoop]
    refine (recvFrame_data _ _ client false _ hst hop.cases f.nonempty hmax'
      hlt').bind ?_
    rintro _ ⟨st', hst', rfl⟩
    obtain ⟨hnext, hne⟩ := nextOpcode_head client false f.data hop
    rw [hnext] at hst'
    exact ih hst' (Or.inl ⟨hne, rfl⟩) hmax hlt (by omega)

/-- **`WSRecvMessage` receives the next message** and stops after it. -/
theorem yields_WSRecvMessage (client : Bool) (m : Message) (rest : Bytes)
    (hmax : m.whole.data.length < maxSize) (hlt : m.whole.data.length < 2 ^ 31) :
    Yields (WSRecvMessage maxSize (!client)) (wireBytes (m.calls client) ++ rest)
      (fun x => x.1 = some m.whole) rest := by
  intro l hl
  have hop : FragmentOpcode 0 m.opcode := Or.inr ⟨rfl, m.isData⟩
  have hfuel : (m.calls client).length ≤ l.input.length + 1 := by
    have := length_le_wireBytes (m.calls client)
    rw [hl.input, List.length_append]
    omega
  have hinit : RecvState.init.At 0 [] := ⟨rfl, rfl, rfl⟩
  obtain ⟨x, l', hx, hres, hl'⟩ := recvLoop_fragments client rest m.more hinit hop hmax hlt hfuel l hl
  refine ⟨x, l', hx, hres.trans ?_, hl'⟩
  have hjoin : ((joinedOpcode 0 m.opcode : Nat) : Int) = m.opcode := by
    rcases m.isData with h | h <;> simp [joinedOpcode, h]
  rw [hjoin]
  rfl

/-! ### A conversation -/

/-- All calls of one sender: messages, with controls between and after. -/
def allCalls (client : Bool) (msgs : List Message) (tail : List Control) : List WsCall :=
  msgs.flatMap (Message.calls client) ++ tail.map Control.call

/-- What the receiver gets: each message, with the bytes of the later calls unread. -/
def received (client : Bool) (tail : List Control) (rest : Bytes) :
    List Message → List (Option WSFrameMessage × Bytes)
  | [] => []
  | m :: msgs => (some m.whole, wireBytes (allCalls client msgs tail) ++ rest) ::
      received client tail rest msgs

/-- The calls that send without closing the stream. -/
def WsCall.Sends : WsCall → Prop
  | .sendMessage _ msg _ _ => msg.data ≠ [] ∧ msg.data.length < sizeMod
  | _ => True

/-- A call that sends does so without a failure. -/
theorem WsCall.Sends.clean {c : WsCall} (h : c.Sends) : c.program.Clean := by
  cases c with
  | sendMessage rand msg client fin => exact (clean_WSSendMessage rand client fin h.1 h.2).bind trivial
  | ping => exact (clean_sendControl _).1
  | pong => exact (clean_sendControl _).1

/-- **Calls one after the other put their frames on the stream.** -/
theorem holds_sendAll {bs : Bytes} : ∀ {calls : List WsCall} {l : Link}, (∀ c ∈ calls, c.Sends) →
    l.Holds bs → ∃ rs l', sendAll calls l = .ok rs l' ∧ l'.output = l.output ++ wireBytes calls
  | [], l, _, _ => ⟨[], l, rfl, (List.append_nil _).symm⟩
  | c :: calls, l, h, hl => by
    obtain ⟨l₁, hrun, hout₁, hl₁⟩ := holds_run (h c List.mem_cons_self).clean hl
    obtain ⟨rs, l₂, hall, hout⟩ :=
      holds_sendAll (fun c' hc' => h c' (List.mem_cons_of_mem _ hc')) hl₁
    refine ⟨c.program.result :: rs, l₂, ?_, ?_⟩
    · rw [sendAll, Act.bind_ok hrun, Act.bind_ok hall]
      rfl
    · rw [hout, hout₁, wireBytes_cons, ← emitted_program, List.append_assoc]

/-- The calls of a message send. -/
theorem sends_fragmentCalls (client : Bool) (more : List Fragment) :
    ∀ {op : Int} {f : Fragment}, (fragmentData f more).length < sizeMod →
      ∀ c ∈ fragmentCalls client op f more, c.Sends := by
  have hcontrol : ∀ controls : List Control, ∀ c ∈ controls.map Control.call, c.Sends := by
    intro controls c hc
    obtain ⟨k, -, rfl⟩ := List.mem_map.1 hc
    cases k <;> trivial
  induction more with
  | nil =>
    intro op f hlt c hc
    rcases List.mem_append.1 hc with hc | hc
    · exact hcontrol _ c hc
    · rw [List.mem_singleton.1 hc]
      exact ⟨f.nonempty, by simpa [fragmentData] using hlt⟩
  | cons g more ih =>
    intro op f hlt c hc
    have hsum : (fragmentData f (g :: more)).length = f.data.length + (fragmentData g more).length := by
      simp [fragmentData]
    rcases List.mem_append.1 hc with hc | hc
    · exact hcontrol _ c hc
    rcases List.mem_cons.1 hc with rfl | hc
    · refine ⟨f.nonempty, ?_⟩
      show f.data.length < sizeMod
      omega
    · exact ih (by omega) c hc

/-- The total payload is below `websocket.message.max_size` and fits an `int`. -/
def Message.Fits (maxSize : Nat) (m : Message) : Prop :=
  m.whole.data.length < maxSize ∧ m.whole.data.length < 2 ^ 31

/-- Each call receives its message, and the bytes of the later calls stay. -/
theorem yields_recvAll (client : Bool) (tail : List Control) (rest : Bytes) :
    ∀ msgs : List Message, (∀ m ∈ msgs, m.Fits maxSize) →
      Yields (recvAll maxSize (!client) msgs.length) (wireBytes (allCalls client msgs tail) ++ rest)
        (fun x => x = received client tail rest msgs) (wireBytes (tail.map Control.call) ++ rest)
  | [], _ => yields_pure _ rfl
  | m :: msgs, h => by
    have hm := h m List.mem_cons_self
    have hcalls : wireBytes (allCalls client (m :: msgs) tail) ++ rest =
        wireBytes (m.calls client) ++ (wireBytes (allCalls client msgs tail) ++ rest) := by
      rw [allCalls, List.flatMap_cons, List.append_assoc, wireBytes_append, List.append_assoc]
      rfl
    rw [hcalls, List.length_cons, recvAll]
    refine (yields_WSRecvMessage client m _ hm.1 hm.2).bind ?_
    rintro ⟨msg, notes⟩ hmsg
    have hunread : Yields (fun l => .ok l.input l) (wireBytes (allCalls client msgs tail) ++ rest)
        (fun x => x = wireBytes (allCalls client msgs tail) ++ rest)
        (wireBytes (allCalls client msgs tail) ++ rest) :=
      fun l hl => ⟨_, l, rfl, hl.input, hl⟩
    refine hunread.bind ?_
    rintro _ rfl
    refine (yields_recvAll client tail rest msgs fun m' hm' => h m' (List.mem_cons_of_mem _ hm')).bind ?_
    rintro _ rfl
    refine yields_pure _ ?_
    rw [received, show msg = some m.whole from hmsg]

/-- **What is sent is received.**  One sender's calls, messages in fragments with pings
and pongs anywhere, from a client (masked, any keys) to a server or from a server to a
client: the calls put their frames on the stream, and however the reads at the other
end cut them, successive `WSRecvMessage` calls return the messages in order, each with
the opcode of its first fragment and its whole payload, each leaving exactly the bytes
of the later calls unread. -/
theorem ws_round_trip (maxSize : Nat) (client : Bool) (msgs : List Message) (tail : List Control)
    (hfits : ∀ m ∈ msgs, m.Fits maxSize) {sender : Link} (hs : sender.Holds sender.input) :
    ∃ rs sender', sendAll (allCalls client msgs tail) sender = .ok rs sender' ∧
      ∃ wire, sender'.output = sender.output ++ wire ∧
        ∀ (rest : Bytes) (receiver : Link), receiver.Holds (wire ++ rest) →
          ∃ receiver', recvAll maxSize (!client) msgs.length receiver =
              .ok (received client tail rest msgs) receiver' ∧
            receiver'.input = wireBytes (tail.map Control.call) ++ rest := by
  have hsends : ∀ c ∈ allCalls client msgs tail, c.Sends := by
    intro c hc
    rcases List.mem_append.1 hc with hc | hc
    · obtain ⟨m, hm, hc⟩ := List.mem_flatMap.1 hc
      refine sends_fragmentCalls client m.more ?_ c hc
      exact Nat.lt_trans (hfits m hm).2 (by decide)
    · obtain ⟨k, -, rfl⟩ := List.mem_map.1 hc
      cases k <;> trivial
  obtain ⟨rs, sender', hsend, hout⟩ := holds_sendAll hsends hs
  refine ⟨rs, sender', hsend, _, hout, fun rest receiver hr => ?_⟩
  obtain ⟨x, receiver', hx, rfl, hr'⟩ := yields_recvAll client tail rest msgs hfits receiver hr
  exact ⟨receiver', hx, hr'.input⟩

/-- A message in two fragments with a ping between them, and a short one. -/
def sampleMessages : List Message :=
  [⟨1, ⟨[], 0x01020304, str "hel", by decide⟩, [⟨[.ping], 7, str "lo", by decide⟩], isData_text⟩,
    ⟨2, ⟨[.pong], 9, [0], by decide⟩, [], Or.inr rfl⟩]

/-- They go out, the first write taking one byte only, and reach the server. -/
theorem ws_round_trip_sampleMessages :
    ∃ rs sender', sendAll (allCalls true sampleMessages [.ping]) ⟨[], [], [], [.count 1], false⟩ =
        .ok rs sender' ∧
      ∃ wire, sender'.output = [] ++ wire ∧
        ∀ (rest : Bytes) (receiver : Link), receiver.Holds (wire ++ rest) →
          ∃ receiver', recvAll 1024 false 2 receiver =
              .ok (received true [.ping] rest sampleMessages) receiver' ∧
            receiver'.input = wireBytes [.ping] ++ rest :=
  ws_round_trip 1024 true sampleMessages [.ping]
    (by
      intro m hm
      simp only [sampleMessages, List.mem_cons, List.not_mem_nil, or_false] at hm
      rcases hm with rfl | rfl <;> exact ⟨by decide, by decide⟩)
    ⟨rfl, rfl, nofun, by decide⟩

end Http
end Wuchat
