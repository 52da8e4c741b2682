/-
# Control frames of other clients

A client may put a payload in its `PING` and `PONG` frames, and must mask all its frames.
`WSRecvMessage` takes the two bytes of such a head off the stream and leaves the mask key
and the payload there: they are read as heads next, two bytes at a time.

The receiver is back in step after a block of control frames when that reading finds no
data frame and ends where the block ends (`Skipped`).  `controls_in_step` says that in
this case the messages are those of the stream without the control frames, each with
the stream at the first byte of the next frame; `ping_key_as_head` that a single `PING`
with an unlucky key is enough to lose the connection.
-/

import Wuchat.Http.WsRoundTrip

namespace Wuchat
namespace Http

open Foundation Streams

/-! ### What a client sends -/

/-- A masked `PING` or `PONG` frame. -/
structure ClientControl where
  pong : Bool
  key : Bytes
  payload : Bytes
  length_key : key.length = 4
  length_payload : payload.length ≤ 125

/-- The head of a masked control frame. -/
def ClientControl.head (c : ClientControl) : WSFrameHead where
  fin := true
  rsv1 := false
  rsv2 := false
  rsv3 := false
  opcode := if c.pong then WSFrameHead.PONG else WSFrameHead.PING
  mask := true
  payload := ⟨c.payload.length, by have := c.length_payload; omega⟩

/-- The bytes of a masked control frame. -/
def ClientControl.frame (c : ClientControl) : Bytes :=
  c.head.toBytes ++ (c.key ++ maskData c.key c.payload)

/-- The bytes of a block of control frames. -/
def blockBytes (controls : List ClientControl) : Bytes := controls.flatMap ClientControl.frame

/-- A fragment of a message: the control frames before it, its mask key, and its payload. -/
structure ClientFragment where
  controls : List ClientControl
  rand : Nat
  data : Bytes
  nonempty : data ≠ []
  length_data : data.length < 2 ^ 63

/-- A message in fragments. -/
structure ClientMessage where
  opcode : Int
  first : ClientFragment
  more : List ClientFragment
  isData : opcode = 1 ∨ opcode = 2

/-- The bytes of a message from a fragment on. -/
def fragmentBytes : Int → ClientFragment → List ClientFragment → Bytes
  | opcode, f, [] => blockBytes f.controls ++ WSFrameMessage.frame ⟨opcode, f.data⟩ f.rand true true
  | opcode, f, g :: more =>
    blockBytes f.controls ++
      (WSFrameMessage.frame ⟨opcode, f.data⟩ f.rand true false ++ fragmentBytes 0 g more)

/-- The payload from a fragment on. -/
def payloadFrom (f : ClientFragment) (more : List ClientFragment) : Bytes :=
  f.data ++ more.flatMap ClientFragment.data

/-- The message that is to be returned. -/
def ClientMessage.whole (m : ClientMessage) : WSFrameMessage := ⟨m.opcode, payloadFrom m.first m.more⟩

/-- The bytes of messages and of the control frames after them. -/
def clientBytes (tail : List ClientControl) : List ClientMessage → Bytes
  | [] => blockBytes tail
  | m :: msgs => fragmentBytes m.opcode m.first m.more ++ clientBytes tail msgs

/-- The fragment without its control frames. -/
def ClientFragment.plain (f : ClientFragment) : ClientFragment := { f with controls := [] }

/-- The message without its control frames. -/
def ClientMessage.plain (m : ClientMessage) : ClientMessage :=
  { m with first := m.first.plain, more := m.more.map ClientFragment.plain }

/-- The bytes still to come in. -/
def unread : Act Bytes := fun l => .ok l.input l

/-- The receive loop of `WSServer::handleClient`: `WSRecvMessage` until it returns null;
each message with the bytes it leaves. -/
def recvMessagesLoop (maxSize : Nat) : Nat → Act (List (WSFrameMessage × Bytes))
  | 0 => fun _ => .hang
  | n + 1 => do
    let (msg?, _) ← WSRecvMessage maxSize false
    match msg? with
    | none => pure []
    | some msg => do
      let bytes ← unread
      let rest ← recvMessagesLoop maxSize n
      pure ((msg, bytes) :: rest)

/-- All messages of a connection. -/
def recvMessages (maxSize : Nat) : Act (List (WSFrameMessage × Bytes)) := fun l =>
  recvMessagesLoop maxSize (l.input.length + 1) l

/-! ### Blocks that are skipped -/

/-- Read as heads, the bytes have no data frame among them and end with a head. -/
def Skipped : Bytes → Prop
  | [] => True
  | [_] => False
  | b₀ :: b₁ :: rest => ¬(WSFrameHead.ofBytes b₀ b₁).IsData ∧ Skipped rest

/-- Read as heads, the bytes have no data frame among them; a single byte may be left.  This is more than the end of a
stream needs: an unmasked data head, or one whose frame the stream cuts off, ends it as well. -/
def SkippedToEnd : Bytes → Prop
  | [] => True
  | [_] => True
  | b₀ :: b₁ :: rest => ¬(WSFrameHead.ofBytes b₀ b₁).IsData ∧ SkippedToEnd rest

/-- Whether bytes are skipped in pairs can be computed. -/
instance instDecidableSkipped : (bs : Bytes) → Decidable (Skipped bs)
  | [] => .isTrue trivial
  | [_] => .isFalse id
  | b₀ :: b₁ :: rest =>
    have := instDecidableSkipped rest
    inferInstanceAs (Decidable (¬(WSFrameHead.ofBytes b₀ b₁).IsData ∧ Skipped rest))

/-- So can whether they are skipped up to the end. -/
instance instDecidableSkippedToEnd : (bs : Bytes) → Decidable (SkippedToEnd bs)
  | [] => .isTrue trivial
  | [_] => .isTrue trivial
  | b₀ :: b₁ :: rest =>
    have := instDecidableSkippedToEnd rest
    inferInstanceAs (Decidable (¬(WSFrameHead.ofBytes b₀ b₁).IsData ∧ SkippedToEnd rest))

/-- The blocks of a message are skipped, up to a fragment that makes it too long; after a
message that is not too long, `next`. -/
def FragmentsInStep (maxSize : Nat) (next : Prop) : Nat → ClientFragment → List ClientFragment → Prop
  | total, f, [] => Skipped (blockBytes f.controls) ∧ (total + f.data.length < maxSize → next)
  | total, f, g :: more => Skipped (blockBytes f.controls) ∧
      (total + f.data.length < maxSize → FragmentsInStep maxSize next (total + f.data.length) g more)

/-- **The receiver stays in step** with what a client sends. -/
def InStep (maxSize : Nat) (tail : List ClientControl) : List ClientMessage → Prop
  | [] => SkippedToEnd (blockBytes tail)
  | m :: msgs => FragmentsInStep maxSize (InStep maxSize tail msgs) 0 m.first m.more

/-- The messages that are to be returned, each with the bytes to be left: all up to the
first that is too long. -/
def returned (maxSize : Nat) (tail : List ClientControl) : List ClientMessage → List (WSFrameMessage × Bytes)
  | [] => []
  | m :: msgs =>
    if m.whole.data.length < maxSize then (m.whole, clientBytes tail msgs) :: returned maxSize tail msgs
    else []

variable {maxSize : Nat}

/-- **A skipped block costs a turn for every head.** -/
theorem recvLoop_skipped {n : Nat} {st : RecvState} {R : Res (Option WSFrameMessage × List Note) → Prop}
    {mid : Bytes} (h : ∀ l : Link, l.Holds mid → R (recvLoop maxSize false n st l)) :
    ∀ {bs : Bytes}, Skipped bs → ∀ l : Link, l.Holds (bs ++ mid) →
      R (recvLoop maxSize false (n + bs.length / 2) st l)
  | [], _, l, hl => h l hl
  | [_], hs, _, _ => hs.elim
  | b₀ :: b₁ :: rest, hs, l, hl => by
    have hhead : b₀ :: b₁ :: rest ++ mid = (WSFrameHead.ofBytes b₀ b₁).toBytes ++ (rest ++ mid) := by
      rw [WSFrameHead.toBytes_ofBytes]
      rfl
    rw [hhead] at hl
    obtain ⟨l', heq, hl'⟩ := recvFrame_skip maxSize false st hl hs.1
    have hfuel : n + (b₀ :: b₁ :: rest).length / 2 = n + rest.length / 2 + 1 := by
      simp only [List.length_cons]
      omega
    rw [hfuel, recvLoop, Act.bind_ok heq]
    exact recvLoop_skipped h hs.2 l' hl'

/-- The control frames at the end of the stream end it. -/
theorem recvLoop_skippedToEnd {st : RecvState} :
    ∀ {n : Nat} {bs : Bytes} {l : Link}, SkippedToEnd bs → l.Holds bs → bs.length < n →
      ∃ notes l', recvLoop maxSize false n st l = .ok (none, notes) l'
  | 0, _, _, _, _, hn => by omega
  | n + 1, [], l, _, hl, _ => by
    obtain ⟨l', heq⟩ := recvFrame_short maxSize false st hl (by decide)
    rw [recvLoop, Act.bind_ok heq]
    exact ⟨_, _, rfl⟩
  | n + 1, [b], l, _, hl, _ => by
    obtain ⟨l', heq⟩ := recvFrame_short maxSize false st hl (Nat.lt_succ_self 1)
    rw [recvLoop, Act.bind_ok heq]
    exact ⟨_, _, rfl⟩
  | n + 1, b₀ :: b₁ :: rest, l, hs, hl, hn => by
    have hhead : b₀ :: b₁ :: rest = (WSFrameHead.ofBytes b₀ b₁).toBytes ++ rest := by
      rw [WSFrameHead.toBytes_ofBytes]
      rfl
    rw [hhead] at hl
    obtain ⟨l', heq, hl'⟩ := recvFrame_skip maxSize false st hl hs.1
    rw [recvLoop, Act.bind_ok heq]
    simp only [List.length_cons] at hn
    exact recvLoop_skippedToEnd hs.2 hl' (by omega)

/-! ### Messages -/

/-- **A data frame that makes the message too long is refused.** -/
theorem recvFrame_refuse {msg : WSFrameMessage} {rand : Nat} {fin : Bool} {rest : Bytes} {opcode : Nat}
    {data : Bytes} {st : RecvState} {l : Link} (hst : st.At opcode data)
    (hop : msg.opcode = 0 ∨ msg.opcode = 1 ∨ msg.opcode = 2)
    (hmax : maxSize ≤ data.length + msg.data.length) (hlt : data.length + msg.data.length < sizeMod)
    (hl : l.Holds (msg.frame rand true fin ++ rest)) :
    ∃ l', recvFrame maxSize false st l = .ok (.stop st) l' := by
  rw [WSFrameMessage.frame, List.append_assoc, List.append_assoc] at hl
  obtain ⟨hfield, hvalue⟩ := lengthField_head msg true fin (by omega)
  obtain ⟨l₁, hl₁, hturn⟩ := recvFrame_isData maxSize false st hl (isData_head true fin hop)
  obtain ⟨l₂, -, hcheck⟩ := recvData_check maxSize false st hl₁ (fun _ => rfl) hfield
  have hsum : (toUint64 st.cur_len + msg.data.length) % sizeMod = data.length + msg.data.length := by
    rw [hst.cur_len, toUint64_natCast (by omega), Nat.mod_eq_of_lt hlt]
  rw [hvalue, hsum, if_pos hmax] at hcheck
  exact ⟨l₂, hturn.trans hcheck⟩

/-- A call returns the message, with the stream at `rest`, or null when it is too long. -/
def Ends (maxSize : Nat) (msg : WSFrameMessage) (rest : Bytes) (next : Prop)
    (r : Res (Option WSFrameMessage × List Note)) : Prop :=
  ∃ x l', r = .ok x l' ∧
    if msg.data.length < maxSize then x.1 = some msg ∧ l'.Holds rest ∧ next else x.1 = none

/-- **A message is received from any of its fragments on**, when the blocks are skipped. -/
theorem recvLoop_clientFragments (rest : Bytes) (next : Prop) (more : List ClientFragment) :
    ∀ {opcode : Nat} {f : ClientFragment} {op : Int} {st : RecvState} {data : Bytes} {n : Nat},
      st.At opcode data → FragmentOpcode opcode op → data.length < 2 ^ 31 →
      FragmentsInStep maxSize next data.length f more →
      (∀ k ≤ (data ++ payloadFrom f more).length, k < maxSize → k < 2 ^ 31) →
      (fragmentBytes op f more).length < n → ∀ l : Link, l.Holds (fragmentBytes op f more ++ rest) →
      Ends maxSize ⟨joinedOpcode opcode op, data ++ payloadFrom f more⟩ rest next
        (recvLoop maxSize false n st l) := by
  induction more with
  | nil =>
    intro opcode f op st data n hst hop hdata hstep hsmall hn
    obtain ⟨hskip, hnext⟩ := hstep
    have hpay : payloadFrom f [] = f.data := List.append_nil _
    have hlen := f.length_data
    rw [hpay, List.length_append] at hsmall
    rw [fragmentBytes, List.length_append] at hn
    rw [fragmentBytes, List.append_assoc, hpay]
    obtain ⟨k, rfl⟩ : ∃ k, n = k + 1 + (blockBytes f.controls).length / 2 :=
      ⟨n - 1 - (blockBytes f.controls).length / 2, by omega⟩
    refine recvLoop_skipped (fun l hl => ?_) hskip
    rw [recvLoop]
    by_cases hmax : data.length + f.data.length < maxSize
    · obtain ⟨_, l', heq, ⟨st', -, rfl⟩, hl'⟩ := recvFrame_data ⟨op, f.data⟩ f.rand true true rest hst
        hop.cases f.nonempty hmax (hsmall _ (Nat.le_refl _) hmax) l hl
      rw [Bool.not_true, if_pos rfl] at heq
      rw [Act.bind_ok heq]
      refine ⟨_, l', rfl, ?_⟩
      rw [if_pos (by rwa [List.length_append]), (nextOpcode_head true true f.data hop).1]
      exact ⟨rfl, hl', hnext hmax⟩
    · obtain ⟨l', heq⟩ := recvFrame_refuse hst hop.cases (Nat.le_of_not_lt hmax)
        (by dsimp only; rw [sizeMod]; omega) hl
      rw [Act.bind_ok heq]
      refine ⟨_, _, rfl, ?_⟩
      rw [if_neg (by rwa [List.length_append])]
  | cons g more ih =>
    intro opcode f op st data n hst hop hdata hstep hsmall hn
    obtain ⟨hskip, hnext⟩ := hstep
    have hpay : data ++ payloadFrom f (g :: more) = (data ++ f.data) ++ payloadFrom g more := by
      simp [payloadFrom]
    have hlen := f.length_data
    rw [hpay] at hsmall
    rw [fragmentBytes, List.length_append, List.length_append] at hn
    rw [fragmentBytes, List.append_assoc, List.append_assoc, hpay]
    obtain ⟨k, rfl⟩ : ∃ k, n = k + 1 + (blockBytes f.controls).length / 2 :=
      ⟨n - 1 - (blockBytes f.controls).length / 2, by omega⟩
    refine recvLoop_skipped (fun l hl => ?_) hskip
    rw [recvLoop]
    by_cases hmax : data.length + f.data.length < maxSize
    · have hlt : data.length + f.data.length < 2 ^ 31 := by
        refine hsmall _ ?_ hmax
        rw [List.length_append, List.length_append]
        omega
      obtain ⟨_, l', heq, ⟨st', hst', rfl⟩, hl'⟩ := recvFrame_data ⟨op, f.data⟩ f.rand true false _ hst
        hop.cases f.nonempty hmax hlt l hl
      obtain ⟨hjoin, hne⟩ := nextOpcode_head true false f.data hop
      rw [hjoin] at hst'
      rw [Bool.not_true, if_neg Bool.false_ne_true] at heq
      rw [Act.bind_ok heq]
      have hframe : 2 ≤ (WSFrameMessage.frame ⟨op, f.data⟩ f.rand true false).length :=
        (WsCall.sendMessage f.rand ⟨op, f.data⟩ true false).two_le_frame
      refine ih hst' (Or.inl ⟨hne, rfl⟩) (by rwa [List.length_append]) ?_ hsmall (by omega) l' hl'
      rw [List.length_append]
      exact hnext hmax
    · obtain ⟨l', heq⟩ := recvFrame_refuse hst hop.cases (Nat.le_of_not_lt hmax)
        (by dsimp only; rw [sizeMod]; omega) hl
      rw [Act.bind_ok heq]
      refine ⟨_, _, rfl, ?_⟩
      rw [if_neg (by rw [List.length_append, List.length_append]; omega)]

/-- The limit on message sizes fits an `int`, or the message does. -/
def ClientMessage.Small (maxSize : Nat) (m : ClientMessage) : Prop :=
  maxSize ≤ 2 ^ 31 ∨ m.whole.data.length < 2 ^ 31

/-- **`WSRecvMessage` receives the next message of a client.** -/
theorem ends_WSRecvMessage {m : ClientMessage} {rest : Bytes} {next : Prop} {l : Link}
    (hsmall : m.Small maxSize) (hstep : FragmentsInStep maxSize next 0 m.first m.more)
    (hl : l.Holds (fragmentBytes m.opcode m.first m.more ++ rest)) :
    Ends maxSize m.whole rest next (WSRecvMessage maxSize false l) := by
  have hop : FragmentOpcode 0 m.opcode := Or.inr ⟨rfl, m.isData⟩
  have hjoin : ((joinedOpcode 0 m.opcode : Nat) : Int) = m.opcode := by
    rcases m.isData with h | h <;> simp [joinedOpcode, h]
  have hinit : RecvState.init.At 0 [] := ⟨rfl, rfl, rfl⟩
  have hint : ∀ k ≤ ([] ++ payloadFrom m.first m.more).length, k < maxSize → k < 2 ^ 31 := by
    intro k hk hlt
    rcases hsmall with hs | hs
    · omega
    · exact Nat.lt_of_le_of_lt hk hs
  have h := recvLoop_clientFragments rest next m.more hinit hop (by decide) hstep hint
    (n := l.input.length + 1) (by rw [hl.input, List.length_append]; omega) l hl
  rw [hjoin] at h
  exact h

/-! ### A connection -/

/-- A frame has a byte at least. -/
theorem fragmentBytes_length (op : Int) (f : ClientFragment) (more : List ClientFragment) :
    0 < (fragmentBytes op f more).length := by
  cases more with
  | nil =>
    rw [fragmentBytes, WSFrameMessage.frame]
    simp only [List.length_append, WSFrameHead.length_toBytes]
    omega
  | cons g more =>
    rw [fragmentBytes, WSFrameMessage.frame]
    simp only [List.length_append, WSFrameHead.length_toBytes]
    omega

/-- The messages of a connection that stays in step. -/
theorem recvMessagesLoop_inStep {tail : List ClientControl} : ∀ {msgs : List ClientMessage} {n : Nat} {l : Link},
    (∀ m ∈ msgs, m.Small maxSize) → InStep maxSize tail msgs → l.Holds (clientBytes tail msgs) →
    (clientBytes tail msgs).length < n →
    ∃ l', recvMessagesLoop maxSize n l = .ok (returned maxSize tail msgs) l'
  | _, 0, _, _, _, _, hn => by omega
  | [], n + 1, l, _, hstep, hl, hn => by
    obtain ⟨notes, l', heq⟩ : ∃ notes l', WSRecvMessage maxSize false l = .ok (none, notes) l' := by
      refine recvLoop_skippedToEnd hstep hl ?_
      rw [hl.input]
      exact Nat.lt_succ_self _
    refine ⟨l', ?_⟩
    rw [recvMessagesLoop, Act.bind_ok heq]
    rfl
  | m :: msgs, n + 1, l, hsmall, hstep, hl, hn => by
    obtain ⟨⟨msg?, notes⟩, l₁, heq, hend⟩ := ends_WSRecvMessage (hsmall m List.mem_cons_self) hstep hl
    rw [recvMessagesLoop, Act.bind_ok heq, returned]
    split at hend
    · rename_i hfits
      obtain ⟨rfl, hl₁, hnext⟩ := hend
      have hpos := fragmentBytes_length m.opcode m.first m.more
      rw [clientBytes, List.length_append] at hn
      obtain ⟨l', hrest⟩ := recvMessagesLoop_inStep
        (fun m' hm' => hsmall m' (List.mem_cons_of_mem _ hm')) hnext hl₁ (n := n) (by omega)
      refine ⟨l', ?_⟩
      dsimp only
      have hunread : unread l₁ = .ok (clientBytes tail msgs) l₁ := by
        rw [unread, hl₁.input]
      rw [Act.bind_ok hunread, Act.bind_ok hrest, if_pos hfits]
      rfl
    · rename_i hlong
      refine ⟨l₁, ?_⟩
      dsimp only at hend
      rw [hend, if_neg hlong]
      rfl

/-- Without control frames the receiver is in step. -/
theorem fragmentsInStep_plain {next : Prop} (hnext : next) (more : List ClientFragment) :
    ∀ (total : Nat) (f : ClientFragment),
      FragmentsInStep maxSize next total f.plain (more.map ClientFragment.plain) := by
  induction more with
  | nil => exact fun _ _ => ⟨trivial, fun _ => hnext⟩
  | cons g more ih => exact fun _ _ => ⟨trivial, fun _ => ih _ g⟩

/-- Messages without control frames are in step. -/
theorem inStep_plain : ∀ msgs : List ClientMessage, InStep maxSize [] (msgs.map ClientMessage.plain)
  | [] => trivial
  | m :: msgs => fragmentsInStep_plain (inStep_plain msgs) m.more 0 m.first

/-- A message is the same without its control frames. -/
theorem ClientMessage.whole_plain (m : ClientMessage) : m.plain.whole = m.whole := by
  simp only [whole, plain, payloadFrom, ClientFragment.plain, List.flatMap_map]

/-- A message without its control frames is as small. -/
theorem ClientMessage.Small.plain {m : ClientMessage} (h : m.Small maxSize) : m.plain.Small maxSize := by
  unfold Small
  rw [whole_plain]
  exact h

/-- The messages that are returned. -/
theorem returned_fst (tail : List ClientControl) (msgs : List ClientMessage) :
    (returned maxSize tail msgs).map Prod.fst =
      (msgs.map ClientMessage.whole).takeWhile fun msg => msg.data.length < maxSize := by
  induction msgs with
  | nil => rfl
  | cons m msgs ih =>
    rw [List.map_cons, returned]
    split
    · rename_i hfits
      rw [List.takeWhile_cons_of_pos (by simpa using hfits), List.map_cons, ih]
    · rename_i hlong
      rw [List.takeWhile_cons_of_neg (by simpa using hlong), List.map_nil]

/-- The stream is left at the messages that follow. -/
theorem returned_snd (tail : List ClientControl) (msgs : List ClientMessage) (i : Nat) (x : WSFrameMessage × Bytes)
    (h : (returned maxSize tail msgs)[i]? = some x) : x.2 = clientBytes tail (msgs.drop (i + 1)) := by
  induction msgs generalizing i with
  | nil => simp [returned] at h
  | cons m msgs ih =>
    rw [returned] at h
    split at h
    · cases i with
      | zero =>
        simp at h
        simp [← h]
      | succ i => exact ih i (by simpa using h)
    · simp at h

/-- **A receiver that stays in step.**  For everything a client may send, masked, with
`PING` and `PONG` frames of up to 125 bytes anywhere: when the receiver stays in
step, the messages of the connection are those of the same messages sent without control
frames, and after each the stream is at the first byte of the next frame. -/
theorem controls_in_step (maxSize : Nat) (msgs : List ClientMessage) (tail : List ClientControl)
    (hsmall : ∀ m ∈ msgs, m.Small maxSize) (hstep : InStep maxSize tail msgs) {l l₀ : Link}
    (hl : l.Holds (clientBytes tail msgs)) (hl₀ : l₀.Holds (clientBytes [] (msgs.map ClientMessage.plain))) :
    ∃ out out₀ l' l₀', recvMessages maxSize l = .ok out l' ∧ recvMessages maxSize l₀ = .ok out₀ l₀' ∧
      out.map Prod.fst = out₀.map Prod.fst ∧
      out.map Prod.fst = (msgs.map ClientMessage.whole).takeWhile (fun msg => msg.data.length < maxSize) ∧
      ∀ i x, out[i]? = some x → x.2 = clientBytes tail (msgs.drop (i + 1)) := by
  obtain ⟨l', hout⟩ := recvMessagesLoop_inStep (n := l.input.length + 1) hsmall hstep hl
    (by rw [hl.input]; exact Nat.lt_succ_self _)
  have hsmall₀ : ∀ m ∈ msgs.map ClientMessage.plain, m.Small maxSize := by
    intro m hm
    obtain ⟨m', hm', rfl⟩ := List.mem_map.1 hm
    exact (hsmall m' hm').plain
  obtain ⟨l₀', hout₀⟩ := recvMessagesLoop_inStep (n := l₀.input.length + 1) hsmall₀ (inStep_plain msgs) hl₀
    (by rw [hl₀.input]; exact Nat.lt_succ_self _)
  refine ⟨_, _, l', l₀', hout, hout₀, ?_, returned_fst tail msgs, returned_snd tail msgs⟩
  rw [returned_fst, returned_fst, List.map_map]
  congr 2
  exact funext fun m => m.whole_plain.symm

/-- A `PING` with two bytes of payload whose key and masked payload read as heads of other
control frames. -/
def luckyPing : ClientControl := ⟨false, [0x8a, 1, 0x8a, 2], [0, 0], rfl, by decide⟩

/-- An empty `PING` whose key reads as the head of a data frame without a mask. -/
def unluckyPing : ClientControl := ⟨false, [1, 2, 3, 4], [], rfl, by decide⟩

/-- The text `hi` in two fragments, after a control frame and with one between them. -/
def hiBetween (c : ClientControl) : ClientMessage :=
  ⟨1, ⟨[c], 7, str "h", by decide, by decide⟩, [⟨[c], 8, str "i", by decide, by decide⟩], isData_text⟩

/-- The statement at a message with a ping that is skipped. -/
theorem controls_in_step_luckyPing :
    ∃ out out₀ l' l₀',
      recvMessages 33554432 ⟨clientBytes [] [hiBetween luckyPing], [.count 3], [], [], false⟩ = .ok out l' ∧
      recvMessages 33554432 ⟨clientBytes [] [(hiBetween luckyPing).plain], [], [], [], false⟩ = .ok out₀ l₀' ∧
      out.map Prod.fst = out₀.map Prod.fst ∧
      out.map Prod.fst =
        ([hiBetween luckyPing].map ClientMessage.whole).takeWhile (fun msg => msg.data.length < 33554432) ∧
      ∀ i x, out[i]? = some x → x.2 = clientBytes [] ([hiBetween luckyPing].drop (i + 1)) := by
  refine controls_in_step 33554432 [hiBetween luckyPing] [] ?_ ?_ ⟨rfl, rfl, by decide, nofun⟩
    ⟨rfl, rfl, nofun, nofun⟩
  · intro m _
    exact Or.inl (by decide)
  · exact ⟨by decide, fun _ => ⟨by decide, fun _ => trivial⟩⟩

/-- **A key read as a head.**  After an empty `PING` with the key `1 2 3 4`, the message
`hi` is not returned: the connection ends.  Without the control frames it is. -/
theorem ping_key_as_head :
    (∃ l', recvMessages 33554432 ⟨clientBytes [] [hiBetween unluckyPing], [], [], [], false⟩ = .ok [] l') ∧
    ∃ l', recvMessages 33554432 ⟨clientBytes [] [(hiBetween unluckyPing).plain], [], [], [], false⟩ =
      .ok [(⟨1, str "hi"⟩, [])] l' :=
  ⟨⟨⟨[3, 4, 1, 129, 7, 0, 0, 0, 111, 137, 128, 1, 2, 3, 4, 128, 129, 8, 0, 0, 0, 97], [], [138, 0], [], true⟩,
      by decide⟩,
    ⟨[], [], [], [], true⟩, by decide +kernel⟩

end Http
end Wuchat
