/-
# Sending one message object more than once

`sendMessage(msg)` of `WSSession` and `WSConnection`, called with one `WSFrameMessage::ptr` on any
mix of streams.

`WSSendMessage` of a client masks the data of the message where it is, and leaves it masked.  So
the call after it, on whatever stream, sends the masked data as the payload.  A call of a
server leaves the object as it was.  A client's call does, too, when the bytes of its key that
are used are zero (`maskData_eq_self`).

A receiver makes a payload of the bytes of one frame (`framePayload`); `WSRecvMessage` is one for
the messages it accepts (`delivers_frame`).
-/

import Mathlib.Data.List.Forall2
import Wuchat.Http.WsRoundTrip

namespace Wuchat
namespace Http

open Foundation Streams

/-! ### Calls that may close their stream at the end -/

namespace Sender

/-- When all its writes go through, a call returns `r`, and closes the stream at its end or not at
all. -/
def Ends {α : Type} : Sender α → Bool → α → Prop
  | ret x, closed, r => closed = false ∧ x = r
  | writeFixSize buf k, closed, r => buf.length < sizeMod ∧ (k buf.length).Ends closed r
  | close (ret x), closed, r => closed = true ∧ x = r
  | close _, _, _ => False

/-- A call that only writes, and what comes after it. -/
theorem Ends.bind {α β : Type} {f : α → Sender β} {closed : Bool} {r : β} :
    ∀ {m : Sender α}, m.Clean → (f m.result).Ends closed r → (m >>= f).Ends closed r
  | ret _, _, h => h
  | writeFixSize _ _, hm, h => ⟨hm.1, Ends.bind hm.2 h⟩
  | close _, hm, _ => hm.elim

/-- **What such a call does to its stream.** -/
theorem Ends.run {α : Type} {bs : Bytes} {closed : Bool} {r : α} :
    ∀ {m : Sender α} {l : Link}, m.Ends closed r → l.Holds bs →
      ∃ l', m.run l = .ok r l' ∧ l'.output = l.output ++ m.emitted ∧ l'.closed = closed
  | ret _, l, h, hl => by
    obtain ⟨rfl, rfl⟩ := h
    exact ⟨l, rfl, (List.append_nil _).symm, hl.opened⟩
  | writeFixSize buf k, l, h, hl => by
    obtain ⟨writes, hw, hl₁⟩ := hl.writeFixSize h.1
    obtain ⟨l', hk, hout, hclosed⟩ := Ends.run h.2 hl₁
    refine ⟨l', ?_, ?_, hclosed⟩
    · rw [Sender.run, Act.bind_ok hw, hk]
    · rw [hout, Sender.emitted, List.append_assoc]
  | close (ret _), l, h, _ => by
    obtain ⟨rfl, rfl⟩ := h
    exact ⟨{ l with closed := true }, rfl, (List.append_nil _).symm, rfl⟩

end Sender

/-- The message as `WSSendMessage` leaves it. -/
def WSFrameMessage.sent (msg : WSFrameMessage) (rand : Nat) (client : Bool) : WSFrameMessage :=
  if client then { msg with data := maskData (leBytes 4 rand) msg.data } else msg

/-- The mask leaves the length. -/
theorem WSFrameMessage.length_sent (msg : WSFrameMessage) (rand : Nat) (client : Bool) :
    (msg.sent rand client).data.length = msg.data.length := by
  cases client with
  | false => rfl
  | true => exact List.length_mapIdx

/-- **`WSSendMessage` when all its writes go through:** without data it reports `-1` and closes the
stream, since the write of no bytes answers `0`. -/
theorem ends_WSSendMessage (rand : Nat) {msg : WSFrameMessage} (client fin : Bool)
    (hlt : msg.data.length < sizeMod) :
    (WSSendMessage rand msg client fin).Ends (decide (msg.data = []))
      (if msg.data = [] then -1 else toInt32 (msg.data.length + 2), msg.sent rand client) := by
  obtain ⟨-, hlen⟩ := sendLength_head msg client fin
  obtain ⟨hok, -⟩ := sendMask_spec rand client msg
  obtain ⟨hmask, hsize⟩ := clean_sendMask rand client msg
  have hsent : (sendMask rand client msg).result.2 = msg.sent rand client := by
    cases client <;> rfl
  rw [WSSendMessage]
  refine Sender.Ends.bind ⟨by rw [WSFrameHead.length_toBytes]; decide, trivial⟩ ?_
  rw [if_neg (by simp [Sender.result])]
  refine Sender.Ends.bind (clean_sendLength _ _) ?_
  rw [hlen, if_neg (by decide)]
  refine Sender.Ends.bind hmask ?_
  dsimp only
  rw [hok, if_neg (by decide), hsent]
  refine Sender.Ends.bind ⟨by rwa [msg.length_sent], trivial⟩ ?_
  dsimp only [Sender.result]
  rw [msg.length_sent]
  by_cases hnil : msg.data = []
  · rw [if_pos (List.length_eq_zero_iff.2 hnil), if_pos hnil]
    exact ⟨decide_eq_true hnil, rfl⟩
  · rw [if_neg (fun h0 => hnil (List.length_eq_zero_iff.1 h0)), if_neg hnil]
    exact ⟨decide_eq_false hnil, rfl⟩

/-! ### The receivers -/

/-- The payload of the bytes of one frame: what is behind the head, the length field and the mask
key, unmasked. -/
def framePayload : Bytes → Option Bytes
  | b₀ :: b₁ :: rest =>
    let head := WSFrameHead.ofBytes b₀ b₁
    let field := rest.take (lengthSize head.payload)
    let key := (rest.drop (lengthSize head.payload)).take (maskSize head.mask)
    let payload := (rest.drop (lengthSize head.payload)).drop (maskSize head.mask)
    if payload.length = lengthValue head.payload field then
      some (if head.mask then maskData key payload else payload)
    else none
  | _ => none

/-- The same mask twice leaves the data. -/
theorem maskData_maskData (mask data : Bytes) : maskData mask (maskData mask data) = data := by
  refine List.ext_getElem (by simp [maskData]) fun i h₁ h₂ => ?_
  simp only [maskData, List.getElem_mapIdx]
  rw [UInt8.xor_assoc, UInt8.xor_self, UInt8.xor_zero]

/-- **The payload of the frame of a message is its data.** -/
theorem framePayload_frame (msg : WSFrameMessage) (rand : Nat) (client fin : Bool)
    (hlt : msg.data.length < sizeMod) : framePayload (msg.frame rand client fin) = some msg.data := by
  obtain ⟨hfield, hvalue⟩ := lengthField_head msg client fin hlt
  obtain ⟨b₀, b₁, hbytes⟩ : ∃ b₀ b₁, (msg.head client fin).toBytes = [b₀, b₁] := ⟨_, _, rfl⟩
  have hkey : maskSize (msg.head client fin).mask = if client then 4 else 0 := by
    cases client <;> rfl
  rw [WSFrameMessage.frame, hbytes, List.cons_append, List.cons_append, List.nil_append, framePayload,
    WSFrameHead.ofBytes_toBytes _ hbytes, ← hfield, List.take_left, List.drop_left, hvalue, hkey]
  cases client with
  | false => exact if_pos rfl
  | true =>
    have hlen : (leBytes 4 rand).length = 4 := length_leBytes 4 rand
    rw [dataBytes, if_pos rfl, if_pos rfl]
    generalize leBytes 4 rand = mask at hlen
    rw [← hlen, List.take_left, List.drop_left]
    have hmask : (msg.head true fin).mask = true := rfl
    rw [hmask, if_pos rfl, maskData_maskData]
    exact if_pos List.length_mapIdx

/-- A receiver of the bytes gets the message: its payload and, for data that it accepts,
`WSRecvMessage` at the other end returns it. -/
def Delivers (msg : WSFrameMessage) (client fin : Bool) (bytes : Bytes) : Prop :=
  framePayload bytes = some msg.data ∧
    ((msg.opcode = 0 ∨ msg.opcode = 1 ∨ msg.opcode = 2) → fin = true → msg.data ≠ [] →
      ∀ maxSize, msg.data.length < maxSize → msg.data.length < 2 ^ 31 →
        Yields (WSRecvMessage maxSize (!client)) bytes (fun x => x.1 = some msg) [])

/-- The first frame's opcode is the message's. -/
theorem nextOpcode_first {op : Int} (data : Bytes) (client fin : Bool) (hop : op = 0 ∨ op = 1 ∨ op = 2) :
    ((nextOpcode 0 (WSFrameMessage.head ⟨op, data⟩ client fin).opcode : Nat) : Int) = op := by
  rcases hop with rfl | rfl | rfl <;> rfl

/-- **A call delivers what the object holds when it is made.** -/
theorem delivers_frame (msg : WSFrameMessage) (rand : Nat) (client fin : Bool) (hlt : msg.data.length < sizeMod) :
    Delivers msg client fin (msg.frame rand client fin) := by
  refine ⟨framePayload_frame msg rand client fin hlt, ?_⟩
  rintro hop rfl hne maxSize hmax hlt' l hl
  have hinit : RecvState.init.At 0 [] := ⟨rfl, rfl, rfl⟩
  have hopcode := nextOpcode_first msg.data client true hop
  have hturn := recvFrame_data msg rand client true [] hinit hop hne
    (by rw [List.length_nil, Nat.zero_add]; exact hmax) (by rw [List.length_nil]; omega)
  rw [List.append_nil] at hturn
  rw [WSRecvMessage]
  refine (Yields.bind hturn ?_) l hl
  rintro _ ⟨st, -, rfl⟩
  refine yields_pure _ ?_
  show some _ = some msg
  rw [hopcode]
  rfl

/-! ### One object, many calls -/

/-- A `sendMessage` call: of a `WSConnection` or not, its `fin`, what `rand()` gives, and the stream as
it is then. -/
structure SendTo where
  client : Bool
  fin : Bool
  rand : Nat
  stream : Link

/-- The receiver at the other end of a call gets the message. -/
def SendTo.Reaches (msg : WSFrameMessage) (c : SendTo) (o : WSFrameMessage × Bytes) : Prop :=
  Delivers msg c.client c.fin o.2

/-- Calls with one object, one after the other: the object after each, and the bytes it put on its
stream. -/
def sendEach : List SendTo → WSFrameMessage → Option (List (WSFrameMessage × Bytes))
  | [], _ => some []
  | c :: cs, msg =>
    match (WSSendMessage c.rand msg c.client c.fin).run c.stream with
    | .ok (_, msg') l => (sendEach cs msg').map ((msg', l.output.drop c.stream.output.length) :: ·)
    | _ => none

/-- The call masks nothing: it is no client's, or the bytes of its key that are used are zero. -/
def SendTo.Keeps (c : SendTo) (size : Nat) : Prop :=
  c.client = true → ∀ i < size, (leBytes 4 c.rand).getD (i % 4) 0 = 0

/-- Whether a call keeps the message can be computed. -/
instance (c : SendTo) (size : Nat) : Decidable (c.Keeps size) :=
  inferInstanceAs (Decidable (_ → _))

/-- **Masking is nothing** exactly when the bytes of the key that are used are zero. -/
theorem maskData_eq_self (mask data : Bytes) :
    maskData mask data = data ↔ ∀ i < data.length, mask.getD (i % 4) 0 = 0 := by
  have hbyte : ∀ b k : UInt8, b ^^^ k = b ↔ k = 0 := by
    intro b k
    rw [← UInt8.xor_right_inj (a := k) (b := 0) b, UInt8.xor_zero]
  constructor
  · intro h i hi
    have hget := List.getElem_of_eq h (i := i) (by rwa [h])
    simp only [maskData, List.getElem_mapIdx] at hget
    exact (hbyte _ _).1 hget
  · intro h
    refine List.ext_getElem List.length_mapIdx fun i h₁ h₂ => ?_
    simp only [maskData, List.getElem_mapIdx]
    exact (hbyte _ _).2 (h i h₂)

/-- When a call leaves the message as it was. -/
theorem sent_eq_self (msg : WSFrameMessage) (c : SendTo) :
    msg.sent c.rand c.client = msg ↔ c.Keeps msg.data.length := by
  rw [WSFrameMessage.sent, SendTo.Keeps]
  split
  · rename_i hclient
    rw [← maskData_eq_self]
    constructor
    · exact fun h _ => congrArg WSFrameMessage.data h
    · exact fun h => WSFrameMessage.mk.injEq .. ▸ ⟨rfl, h hclient⟩
  · rename_i hserver
    exact ⟨fun _ h => absurd h hserver, fun _ => rfl⟩

/-- What the calls leave and send, in order. -/
def sentEach : List SendTo → WSFrameMessage → List (WSFrameMessage × Bytes)
  | [], _ => []
  | c :: cs, msg =>
    (msg.sent c.rand c.client, msg.frame c.rand c.client c.fin) :: sentEach cs (msg.sent c.rand c.client)

/-- Calls whose streams hold send each frame. -/
theorem sendEach_eq : ∀ (calls : List SendTo) (msg : WSFrameMessage),
    (∀ c ∈ calls, c.stream.Holds c.stream.input) → msg.data.length < sizeMod →
    sendEach calls msg = some (sentEach calls msg)
  | [], _, _, _ => rfl
  | c :: cs, msg, h, hlt => by
    obtain ⟨l, hrun, hout, -⟩ :=
      (ends_WSSendMessage c.rand c.client c.fin hlt).run (h c List.mem_cons_self)
    have hrest := sendEach_eq cs (msg.sent c.rand c.client)
      (fun c' hc' => h c' (List.mem_cons_of_mem _ hc')) (by rwa [msg.length_sent])
    rw [sendEach, hrun]
    dsimp only
    rw [hout, List.drop_left, hrest, Option.map_some, emitted_WSSendMessage]
    rfl

/-- **The object stays** exactly when no call masks anything. -/
theorem sentEach_keeps (msg : WSFrameMessage) : ∀ calls : List SendTo,
    (∀ o ∈ sentEach calls msg, o.1 = msg) ↔ ∀ c ∈ calls, c.Keeps msg.data.length
  | [] => by simp [sentEach]
  | c :: cs => by
    rw [sentEach, List.forall_mem_cons, List.forall_mem_cons]
    dsimp only
    rw [sent_eq_self]
    refine and_congr_right fun hc => ?_
    rw [(sent_eq_self msg c).2 hc]
    exact sentEach_keeps msg cs

/-- **Every receiver gets the original** exactly when no call but the last masks anything. -/
theorem sentEach_delivers {msg : WSFrameMessage} (hlt : msg.data.length < sizeMod) : ∀ calls : List SendTo,
    List.Forall₂ (SendTo.Reaches msg) calls (sentEach calls msg) ↔
      ∀ c ∈ calls.dropLast, c.Keeps msg.data.length
  | [] => by simp [sentEach]
  | [c] => by simpa [sentEach, SendTo.Reaches] using delivers_frame msg c.rand c.client c.fin hlt
  | c :: d :: cs => by
    rw [sentEach, List.forall₂_cons, List.dropLast_cons_cons, List.forall_mem_cons]
    have hhead : Delivers msg c.client c.fin (msg.frame c.rand c.client c.fin) :=
      delivers_frame msg c.rand c.client c.fin hlt
    constructor
    · rintro ⟨-, hrest⟩
      have hnext := hrest
      rw [sentEach, List.forall₂_cons] at hnext
      -- the next receiver gets what this call left
      have hpay := framePayload_frame (msg.sent c.rand c.client) d.rand d.client d.fin (by rwa [msg.length_sent])
      have hdata : (msg.sent c.rand c.client).data = msg.data :=
        Option.some.inj (hpay.symm.trans hnext.1.1)
      have hsame : msg.sent c.rand c.client = msg := by
        have hop : (msg.sent c.rand c.client).opcode = msg.opcode := by
          rw [WSFrameMessage.sent]
          split <;> rfl
        exact WSFrameMessage.mk.injEq .. ▸ ⟨hop, hdata⟩
      rw [hsame] at hrest
      exact ⟨(sent_eq_self msg c).1 hsame, (sentEach_delivers hlt (d :: cs)).1 hrest⟩
    · rintro ⟨hc, hrest⟩
      rw [(sent_eq_self msg c).2 hc]
      exact ⟨hhead, (sentEach_delivers hlt (d :: cs)).2 hrest⟩

/-- **Exactly when an object can be sent again.**  Calls with one object, on any streams whose writes
go through: each leaves the object as it was exactly when no client's call has a key that masks
a byte, and all receivers get the original exactly when none but the last does. -/
theorem sendEach_iff (msg : WSFrameMessage) (hlt : msg.data.length < sizeMod) (calls : List SendTo)
    (h : ∀ c ∈ calls, c.stream.Holds c.stream.input) :
    ∃ outs, sendEach calls msg = some outs ∧
      ((∀ o ∈ outs, o.1 = msg) ↔ ∀ c ∈ calls, c.Keeps msg.data.length) ∧
      (List.Forall₂ (SendTo.Reaches msg) calls outs ↔
        ∀ c ∈ calls.dropLast, c.Keeps msg.data.length) :=
  ⟨sentEach calls msg, sendEach_eq calls msg h hlt, sentEach_keeps msg calls, sentEach_delivers hlt calls⟩

/-- A stream with nothing to come in, whose writes go through. -/
def idleLink : Link := ⟨[], [], [], [], false⟩

/-- The stream of the example. -/
theorem holds_idleLink : idleLink.Holds [] := ⟨rfl, rfl, nofun, nofun⟩

/-- A server's call, one of a client with the key `0`, and one of a client with another key. -/
def threeCalls : List SendTo := [⟨false, true, 0, idleLink⟩, ⟨true, true, 0, idleLink⟩, ⟨true, true, 7, idleLink⟩]

/-- The statement at three calls. -/
theorem sendEach_iff_threeCalls :
    ∃ outs, sendEach threeCalls ⟨1, str "hi"⟩ = some outs ∧
      ((∀ o ∈ outs, o.1 = ⟨1, str "hi"⟩) ↔ ∀ c ∈ threeCalls, c.Keeps 2) ∧
      (List.Forall₂ (SendTo.Reaches ⟨1, str "hi"⟩) threeCalls outs ↔ ∀ c ∈ threeCalls.dropLast, c.Keeps 2) := by
  refine sendEach_iff ⟨1, str "hi"⟩ (by decide) threeCalls ?_
  intro c hc
  simp only [threeCalls, List.mem_cons, List.not_mem_nil, or_false] at hc
  rcases hc with rfl | rfl | rfl <;> exact holds_idleLink

/-- A client's call and a server's. -/
def twoCalls : List SendTo := [⟨true, true, 1, idleLink⟩, ⟨false, true, 0, idleLink⟩]

/-- **A client's call spoils the object for the next:** with the key `1` the first byte of `"hi"` is
masked, and the receiver of the next call gets `"ii"`. -/
theorem sendEach_twoCalls :
    (∀ c ∈ twoCalls, c.stream.Holds c.stream.input) ∧
    ∃ outs, sendEach twoCalls ⟨1, str "hi"⟩ = some outs ∧
      outs.map (·.1) = [⟨1, str "ii"⟩, ⟨1, str "ii"⟩] ∧
      outs.map (fun o => framePayload o.2) = [some (str "hi"), some (str "ii")] ∧
      ¬(∀ o ∈ outs, o.1 = ⟨1, str "hi"⟩) ∧ ¬List.Forall₂ (SendTo.Reaches ⟨1, str "hi"⟩) twoCalls outs := by
  have hstreams : ∀ c ∈ twoCalls, c.stream.Holds c.stream.input := by
    intro c hc
    simp only [twoCalls, List.mem_cons, List.not_mem_nil, or_false] at hc
    rcases hc with rfl | rfl <;> exact holds_idleLink
  have hlt : (str "hi").length < sizeMod := by decide
  have hmasks : ¬SendTo.Keeps ⟨true, true, 1, idleLink⟩ 2 := by decide
  refine ⟨hstreams, sentEach twoCalls ⟨1, str "hi"⟩, sendEach_eq _ _ hstreams hlt, by decide, by decide, ?_, ?_⟩
  · intro h
    exact hmasks ((sentEach_keeps ⟨1, str "hi"⟩ twoCalls).1 h _ List.mem_cons_self)
  · intro h
    exact hmasks ((sentEach_delivers hlt twoCalls).1 h _ List.mem_cons_self)

end Http
end Wuchat
