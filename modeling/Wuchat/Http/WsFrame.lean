/-
# WebSocket frames and the calls that send them

`http/ws_session.h` and the sending half of `http/ws_session.cpp`.

`WSFrameHead` is a packed bit field of two bytes.  With the low bits first, as the
compilers of little-endian machines lay it out, the opcode is the low four bits and
`fin` the top bit of the first byte, `payload` the low seven bits and `mask` the top
bit of the second.

A sending call is a program (`Sender`) over the `writeFixSize` and `close` of its
stream: what it writes depends on how the writes before went.  When they all go
through, what it writes is one frame (`emitted_WSSendMessage`).
-/

import Mathlib.Algebra.Group.Int.Defs
import Mathlib.Algebra.GroupWithZero.Nat
import Wuchat.Foundation.Endian
import Wuchat.Streams.Stream

namespace Wuchat
namespace Http

open Foundation Streams

/-- The seven bits of `payload` are written as a numeral. -/
instance neZeroPayload : NeZero 128 := ⟨by decide⟩

/-- `WSFrameHead`. -/
structure WSFrameHead where
  opcode : Fin 16
  rsv3 : Bool
  rsv2 : Bool
  rsv1 : Bool
  fin : Bool
  payload : Fin 128
  mask : Bool
  deriving DecidableEq, Repr

namespace WSFrameHead

/-- `WSFrameHead::OPCODE`, without `CLOSE`, which nothing tests. -/
def CONTINUE : Fin 16 := 0
@[inherit_doc CONTINUE] def TEXT_FRAME : Fin 16 := 1
@[inherit_doc CONTINUE] def BIN_FRAME : Fin 16 := 2
@[inherit_doc CONTINUE] def PING : Fin 16 := 9
@[inherit_doc CONTINUE] def PONG : Fin 16 := 10

/-- The two bytes of a head in memory. -/
def toBytes (h : WSFrameHead) : Bytes :=
  [UInt8.ofNat (h.opcode.val + 16 * h.rsv3.toNat + 32 * h.rsv2.toNat + 64 * h.rsv1.toNat
      + 128 * h.fin.toNat),
    UInt8.ofNat (h.payload.val + 128 * h.mask.toNat)]

/-- The head two bytes in memory stand for. -/
def ofBytes (b₀ b₁ : UInt8) : WSFrameHead where
  opcode := ⟨b₀.toNat % 16, Nat.mod_lt _ (by decide)⟩
  rsv3 := b₀.toNat / 16 % 2 = 1
  rsv2 := b₀.toNat / 32 % 2 = 1
  rsv1 := b₀.toNat / 64 % 2 = 1
  fin := b₀.toNat / 128 = 1
  payload := ⟨b₁.toNat % 128, Nat.mod_lt _ (by decide)⟩
  mask := b₁.toNat / 128 = 1

/-- A head has two bytes. -/
@[simp] theorem length_toBytes (h : WSFrameHead) : h.toBytes.length = 2 := rfl

/-- **The layout loses nothing.** -/
theorem ofBytes_toBytes (h : WSFrameHead) {b₀ b₁ : UInt8} (hb : h.toBytes = [b₀, b₁]) :
    ofBytes b₀ b₁ = h := by
  obtain ⟨⟨op, hop⟩, rsv3, rsv2, rsv1, fin, ⟨pay, hpay⟩, mask⟩ := h
  obtain ⟨rfl, h₁⟩ := List.cons.inj hb
  obtain ⟨rfl, -⟩ := List.cons.inj h₁
  have h3 := rsv3.toNat_le
  have h2 := rsv2.toNat_le
  have h1 := rsv1.toNat_le
  have hf := fin.toNat_le
  have hm := mask.toNat_le
  have h₀ : (op + 16 * rsv3.toNat + 32 * rsv2.toNat + 64 * rsv1.toNat + 128 * fin.toNat) % 256 =
      op + 16 * rsv3.toNat + 32 * rsv2.toNat + 64 * rsv1.toNat + 128 * fin.toNat := by
    omega
  have h₁ : (pay + 128 * mask.toNat) % 256 = pay + 128 * mask.toNat := by
    omega
  have hbit : ∀ (v : Bool) (n : Nat), n = v.toNat → decide (n = 1) = v := by
    rintro v n rfl
    cases v <;> rfl
  simp only [ofBytes, UInt8.toNat_ofNat', h₀, h₁, mk.injEq, Fin.mk.injEq]
  refine ⟨by omega, hbit _ _ ?_, hbit _ _ ?_, hbit _ _ ?_, hbit _ _ ?_, by omega, hbit _ _ ?_⟩
  all_goals omega

/-- A byte read from memory is the byte written there. -/
theorem toBytes_ofBytes (b₀ b₁ : UInt8) : (ofBytes b₀ b₁).toBytes = [b₀, b₁] := by
  have hbit : ∀ n : Nat, n < 2 → (decide (n = 1)).toNat = n := fun n hn => by
    obtain rfl | rfl : n = 0 ∨ n = 1 := by omega
    all_goals rfl
  have h₀ := b₀.toNat_lt
  have h₁ := b₁.toNat_lt
  have hfin := hbit (b₀.toNat / 128) (by omega)
  have hmask := hbit (b₁.toNat / 128) (by omega)
  have hrsv : ∀ k, (decide (b₀.toNat / k % 2 = 1)).toNat = b₀.toNat / k % 2 := fun k =>
    hbit _ (Nat.mod_lt _ (by decide))
  rw [toBytes, List.cons.injEq, List.cons.injEq, ← UInt8.toNat_inj, ← UInt8.toNat_inj]
  simp only [ofBytes, hrsv, hfin, hmask, UInt8.toNat_ofNat', and_true]
  constructor <;> omega

end WSFrameHead

/-- `WSFrameMessage`. -/
structure WSFrameMessage where
  opcode : Int
  data : Bytes
  deriving DecidableEq, Repr

/-- A sending call, as its uses of the stream: the number given on is what
`writeFixSize` returned. -/
inductive Sender (α : Type)
  | ret (x : α)
  | writeFixSize (buf : Bytes) (k : Nat → Sender α)
  | close (k : Sender α)

namespace Sender

/-- One call after another. -/
def bind {α β : Type} : Sender α → (α → Sender β) → Sender β
  | ret x, f => f x
  | writeFixSize buf k, f => writeFixSize buf fun v => (k v).bind f
  | close k, f => close (k.bind f)

/-- Senders one after the other; a failure ends them. -/
instance : Monad Sender where
  pure := ret
  bind := bind

/-- A call that has the stream to itself. -/
def run {α : Type} : Sender α → Act α
  | ret x => pure x
  | writeFixSize buf k => do
    let v ← Link.writeFixSize buf
    (k v).run
  | close k => do
    Link.close
    k.run

/-- What a call writes when all its writes go through. -/
def emitted {α : Type} : Sender α → Bytes
  | ret _ => []
  | writeFixSize buf k => buf ++ (k buf.length).emitted
  | close k => k.emitted

/-- What a call returns when all its writes go through. -/
def result {α : Type} : Sender α → α
  | ret x => x
  | writeFixSize buf k => (k buf.length).result
  | close k => k.result

/-- What one call writes after another. -/
theorem emitted_bind {α β : Type} (f : α → Sender β) :
    ∀ m : Sender α, (m >>= f).emitted = m.emitted ++ (f m.result).emitted
  | ret _ => rfl
  | writeFixSize buf k => by
    show buf ++ ((k buf.length) >>= f).emitted = _
    rw [emitted_bind f (k buf.length), emitted, result, List.append_assoc]
  | close k => emitted_bind f k

/-- When all its writes go through, a call does not close the stream. -/
def Clean {α : Type} : Sender α → Prop
  | ret _ => True
  | writeFixSize buf k => buf.length < sizeMod ∧ (k buf.length).Clean
  | close _ => False

/-- What one call returns after another. -/
theorem result_bind {α β : Type} (f : α → Sender β) :
    ∀ m : Sender α, (m >>= f).result = (f m.result).result
  | ret _ => rfl
  | writeFixSize buf k => result_bind f (k buf.length)
  | close k => result_bind f k

/-- A clean sender, then another. -/
theorem Clean.bind {α β : Type} {f : α → Sender β} :
    ∀ {m : Sender α}, m.Clean → (f m.result).Clean → (m >>= f).Clean
  | ret _, _, h => h
  | writeFixSize _ _, hm, h => ⟨hm.1, Clean.bind hm.2 h⟩
  | close _, hm, _ => hm.elim

/-- The end of a call writes nothing, whether it closes the stream or not. -/
theorem emitted_end {α : Type} {c : Prop} [Decidable c] (x y : α) :
    (if c then close (ret x) else pure y : Sender α).emitted = [] := by
  rw [apply_ite emitted]
  exact ite_self _

end Sender

/-- Conversion to `int32_t`. -/
def toInt32 (v : Int) : Int := Int.bmod v (2 ^ 32)

/-- `data[i] ^= mask[i % 4]` for every `i`. -/
def maskData (mask data : Bytes) : Bytes := data.mapIdx fun i b => b ^^^ mask.getD (i % 4) 0

/-- The head `WSSendMessage` writes. -/
def WSFrameMessage.head (msg : WSFrameMessage) (client fin : Bool) : WSFrameHead where
  opcode := ⟨(msg.opcode % 16).toNat, by omega⟩
  rsv3 := false
  rsv2 := false
  rsv1 := false
  fin := fin
  payload :=
    if h : msg.data.length < 126 then ⟨msg.data.length, by omega⟩
    else if msg.data.length < 65536 then 126
    else 127
  mask := client

/-- The extended length, and whether it was written. -/
def sendLength (payload : Fin 128) (size : Nat) : Sender Bool :=
  if payload = 126 then .writeFixSize (leBytes 2 (byteSwap 2 size)) fun v => .ret (v ≠ 0)
  else if payload = 127 then .writeFixSize (leBytes 8 (byteSwap 8 size)) fun v => .ret (v ≠ 0)
  else .ret true

/-- The mask key, whether it was written, and the data after it: a client masks the
data of the message in place. -/
def sendMask (rand : Nat) (client : Bool) (msg : WSFrameMessage) : Sender (Bool × WSFrameMessage) :=
  if client then
    let mask := leBytes 4 rand
    let msg' := { msg with data := maskData mask msg.data }
    .writeFixSize mask fun v => .ret (v ≠ 0, msg')
  else .ret (true, msg)

/-- `WSSendMessage(stream, msg, client, fin)`, with the value `rand()` gives: the result,
and the message as the call leaves it. -/
def WSSendMessage (rand : Nat) (msg : WSFrameMessage) (client fin : Bool) :
    Sender (Int × WSFrameMessage) := do
  let broken (msg : WSFrameMessage) : Sender (Int × WSFrameMessage) := .close (.ret (-1, msg))
  let head := msg.head client fin
  let size := msg.data.length
  let v ← Sender.writeFixSize head.toBytes .ret
  if v = 0 then broken msg
  else if !(← sendLength head.payload size) then broken msg
  else do
    let (ok, msg) ← sendMask rand client msg
    if !ok then broken msg
    else do
      let v ← Sender.writeFixSize msg.data .ret
      if v = 0 then broken msg else pure (toInt32 (size + 2), msg)

/-- The head of a control frame. -/
def controlHead (opcode : Fin 16) : WSFrameHead := ⟨opcode, false, false, false, true, 0, false⟩

/-- A control frame: `WSPing` and `WSPong` differ in the opcode. -/
def sendControl (opcode : Fin 16) : Sender Int := do
  let v ← Sender.writeFixSize (controlHead opcode).toBytes .ret
  if toInt32 v ≤ 0 then .close (.ret (toInt32 v)) else pure (toInt32 v)

/-- `WSPing(stream)`. -/
def WSPing : Sender Int := sendControl WSFrameHead.PING

/-- `WSPong(stream)`. -/
def WSPong : Sender Int := sendControl WSFrameHead.PONG

/-! ### The frame of a call -/

/-- The extended length of a frame. -/
def lengthBytes (size : Nat) : Bytes :=
  if size < 126 then [] else if size < 65536 then leBytes 2 (byteSwap 2 size) else leBytes 8 (byteSwap 8 size)

/-- The mask key and the data of a frame. -/
def dataBytes (rand : Nat) (client : Bool) (data : Bytes) : Bytes :=
  if client then leBytes 4 rand ++ maskData (leBytes 4 rand) data else data

/-- The frame of a message. -/
def WSFrameMessage.frame (msg : WSFrameMessage) (rand : Nat) (client fin : Bool) : Bytes :=
  (msg.head client fin).toBytes ++ (lengthBytes msg.data.length ++ dataBytes rand client msg.data)

/-- The length field of a head. -/
theorem head_payload (msg : WSFrameMessage) (client fin : Bool) :
    ((msg.head client fin).payload = 126 ↔ 126 ≤ msg.data.length ∧ msg.data.length < 65536) ∧
      ((msg.head client fin).payload = 127 ↔ 65536 ≤ msg.data.length) := by
  unfold WSFrameMessage.head
  dsimp only
  split
  · rename_i hs
    constructor
    · rw [Fin.ext_iff]
      show msg.data.length = 126 ↔ _
      omega
    · rw [Fin.ext_iff]
      show msg.data.length = 127 ↔ _
      omega
  split
  · constructor
    · omega
    · constructor
      · intro h
        exact absurd h (by decide)
      · omega
  · constructor
    · constructor
      · intro h
        exact absurd h (by decide)
      · omega
    · omega

/-- The extended length is written as the payload field says. -/
theorem sendLength_head (msg : WSFrameMessage) (client fin : Bool) :
    (sendLength (msg.head client fin).payload msg.data.length).emitted = lengthBytes msg.data.length ∧
      (sendLength (msg.head client fin).payload msg.data.length).result = true := by
  obtain ⟨h126, h127⟩ := head_payload msg client fin
  unfold sendLength lengthBytes
  rcases Nat.lt_or_ge msg.data.length 126 with hs | hs
  · rw [if_neg (by rw [h126]; omega), if_neg (by rw [h127]; omega), if_pos hs]
    exact ⟨rfl, rfl⟩
  rcases Nat.lt_or_ge msg.data.length 65536 with hm | hm
  · rw [if_pos (h126.2 ⟨hs, hm⟩), if_neg (by omega), if_pos hm]
    simp [Sender.emitted, Sender.result]
  · rw [if_neg (by rw [h126]; omega), if_pos (h127.2 hm), if_neg (by omega), if_neg (by omega)]
    simp [Sender.emitted, Sender.result]

/-- The mask key is written, and the data is masked with it. -/
theorem sendMask_spec (rand : Nat) (client : Bool) (msg : WSFrameMessage) :
    (sendMask rand client msg).result.1 = true ∧
      (sendMask rand client msg).emitted ++ (sendMask rand client msg).result.2.data =
        dataBytes rand client msg.data := by
  unfold sendMask dataBytes
  cases client with
  | false => exact ⟨rfl, rfl⟩
  | true => exact ⟨by simp [Sender.result], by simp [Sender.emitted, Sender.result]⟩

/-- **A message is sent as one frame.** -/
theorem emitted_WSSendMessage (rand : Nat) (msg : WSFrameMessage) (client fin : Bool) :
    (WSSendMessage rand msg client fin).emitted = msg.frame rand client fin := by
  obtain ⟨hlen, hlen'⟩ := sendLength_head msg client fin
  obtain ⟨hmask, hmask'⟩ := sendMask_spec rand client msg
  rw [WSSendMessage, Sender.emitted_bind, WSFrameMessage.frame]
  simp only [Sender.emitted, Sender.result, List.append_nil, WSFrameHead.length_toBytes]
  rw [if_neg (by decide), Sender.emitted_bind, hlen, hlen']
  simp only [Bool.not_true, Bool.false_eq_true, if_false]
  rw [Sender.emitted_bind, hmask, ← hmask']
  simp only [Bool.not_true, Bool.false_eq_true, if_false]
  rw [Sender.emitted_bind, Sender.emitted_end, List.append_nil]
  simp only [Sender.emitted, List.append_nil]

/-- The length is sent without a failure. -/
theorem clean_sendLength (payload : Fin 128) (size : Nat) : (sendLength payload size).Clean := by
  unfold sendLength
  split
  · exact ⟨by rw [length_leBytes]; decide, trivial⟩
  split
  · exact ⟨by rw [length_leBytes]; decide, trivial⟩
  · trivial

/-- So is the masked payload, which keeps its length. -/
theorem clean_sendMask (rand : Nat) (client : Bool) (msg : WSFrameMessage) : (sendMask rand client msg).Clean ∧
    (sendMask rand client msg).result.2.data.length = msg.data.length := by
  unfold sendMask
  cases client with
  | false => exact ⟨trivial, rfl⟩
  | true =>
    refine ⟨⟨by rw [length_leBytes]; decide, trivial⟩, ?_⟩
    simp [Sender.result, maskData]

/-- **A message with data is sent without closing the stream.** -/
theorem clean_WSSendMessage (rand : Nat) {msg : WSFrameMessage} (client fin : Bool)
    (hne : msg.data ≠ []) (hlt : msg.data.length < sizeMod) :
    (WSSendMessage rand msg client fin).Clean := by
  obtain ⟨-, hlen⟩ := sendLength_head msg client fin
  obtain ⟨hok, -⟩ := sendMask_spec rand client msg
  obtain ⟨hmask, hsize⟩ := clean_sendMask rand client msg
  have hpos : msg.data.length ≠ 0 := fun h0 => hne (List.length_eq_zero_iff.1 h0)
  rw [WSSendMessage]
  refine Sender.Clean.bind ⟨by rw [WSFrameHead.length_toBytes]; decide, trivial⟩ ?_
  rw [if_neg (by simp [Sender.result])]
  refine Sender.Clean.bind (clean_sendLength _ _) ?_
  rw [hlen, if_neg (by decide)]
  refine Sender.Clean.bind hmask ?_
  dsimp only
  rw [hok, if_neg (by decide)]
  refine Sender.Clean.bind ⟨by rwa [hsize], trivial⟩ ?_
  rw [if_neg (by simp only [Sender.result]; rwa [hsize])]
  trivial

/-- So is a control frame. -/
theorem clean_sendControl (opcode : Fin 16) : (sendControl opcode).Clean ∧
    (sendControl opcode).result = 2 := by
  have hv : toInt32 ((2 : Nat) : Int) = 2 := by decide
  constructor
  · refine Sender.Clean.bind ⟨by rw [WSFrameHead.length_toBytes]; decide, trivial⟩ ?_
    rw [if_neg (by simp only [Sender.result, WSFrameHead.length_toBytes]; rw [hv]; decide)]
    trivial
  · rw [sendControl, Sender.result_bind]
    rw [if_neg (by simp only [Sender.result, WSFrameHead.length_toBytes]; rw [hv]; decide)]
    exact hv

/-- **A control frame is a head.** -/
theorem emitted_sendControl (opcode : Fin 16) :
    (sendControl opcode).emitted = (controlHead opcode).toBytes := by
  rw [sendControl, Sender.emitted_bind, Sender.emitted_end, List.append_nil]
  exact List.append_nil _

end Http
end Wuchat
