/-
# Writing a byte array to a socket

`SocketStream::write(ba, length)` and `Stream::writeFixSize(ba, length)`.

`getReadBuffers` puts the parts of the next `length` bytes into a vector, and `sendmsg` gets a
pointer to its first entry with `length` as the length of the array: the number of bytes, where the
number of parts belongs.  What it takes for further parts is whatever is behind the vector.  A part
is a byte at least, so the two numbers are the same only when every part is one byte: with blocks
of one byte, or for one byte, or for two bytes with the end of a block between them
(`Covers.length_eq_iff`).

`sendmsg` sends a prefix of the bytes its array denotes, at least one.  Every number between one
and all is the one sent for some `choice`.
-/

import Wuchat.Buffer.SocketRead

namespace Wuchat
namespace Buffer

open Foundation Streams

/-- One `sendmsg` call: the vector, the length it is told, and the bytes it sends. -/
structure SendCall where
  ios : List IoVec
  told : Nat
  sent : Bytes
  deriving DecidableEq, Repr

/-- What is outside the program in a `sendmsg` call: how much it sends, and what the memory behind
the vector denotes when it is taken for parts. -/
structure Sendmsg where
  choice : Nat
  behind : Bytes
  deriving DecidableEq, Repr

/-- The bytes that `sendmsg` sends of those its array denotes: some, and not none. -/
def Sendmsg.sends (kernel : Sendmsg) (bytes : Bytes) : Bytes := bytes.take (kernel.choice % bytes.length + 1)

namespace ByteArray

/-- `SocketStream::write(ba, length)` on a connected socket. -/
def socketWrite (kernel : Sendmsg) (length : Nat) (ba : ByteArray) :
    Option (SendCall × Except String Nat × ByteArray) := do
  let (ios, _) ← ba.getReadBuffers length
  let told := length
  let own ← ba.gather (ios.take told)
  let sent := kernel.sends (if ios.length < told then own ++ kernel.behind else own)
  let (r, ba) ← ba.received sent.length
  some (⟨ios, told, sent⟩, r, ba)

end ByteArray

/-- The calls that `writeFixSize` made, what it returned (`none` while it goes on), and the array. -/
structure SendRun where
  calls : List SendCall
  ret : Option (Except String Nat)
  ba : ByteArray

/-- All bytes sent. -/
def SendRun.sent (r : SendRun) : Bytes := r.calls.flatMap SendCall.sent

namespace ByteArray

/-- The loop of `Stream::writeFixSize(ba, length)`, for as many calls as there is fuel. -/
def sendLoop (length : Nat) (kernel : Nat → Sendmsg) : Nat → Nat → ByteArray → Option SendRun
  | 0, left, ba => some ⟨[], if left = 0 then some (.ok length) else none, ba⟩
  | fuel + 1, left, ba =>
    if left = 0 then some ⟨[], some (.ok length), ba⟩
    else do
      let (call, r, ba) ← ba.socketWrite (kernel fuel) left
      match r with
      | .error e => some ⟨[call], some (.error e), ba⟩
      | .ok len =>
        if len = 0 then some ⟨[call], some (.ok len), ba⟩
        else do
          let rest ← sendLoop length kernel fuel ((left + (sizeMod - len)) % sizeMod) ba
          some { rest with calls := call :: rest.calls }

/-- `Stream::writeFixSize(ba, length)` over a `SocketStream`. -/
def writeFixSize (kernel : Nat → Sendmsg) (length : Nat) (ba : ByteArray) : Option SendRun :=
  sendLoop length kernel length length ba

/-- **What `writeFixSize(ba, n)` is for:** it returns, has sent exactly the next `n` bytes, has moved
the position by `n`, and every `sendmsg` was given only parts of `getReadBuffers`. -/
def SendsNext (ba : ByteArray) (kernel : Nat → Sendmsg) (n : Nat) : Prop :=
  ∃ run, ba.writeFixSize kernel n = some run ∧ run.ret = some (.ok n) ∧ run.sent = ba.readable.take n ∧
    run.ba.position = ba.position + n ∧ ∀ call ∈ run.calls, call.told ≤ call.ios.length

/-- **Every part of the next `n` bytes is one byte.** -/
def SingleBytes (ba : ByteArray) (n : Nat) : Prop :=
  ba.baseSize = 1 ∨ n ≤ 1 ∨ n = 2 ∧ (ba.position + 1) % ba.baseSize = 0

/-- The condition can be computed. -/
instance (ba : ByteArray) (n : Nat) : Decidable (ba.SingleBytes n) := inferInstanceAs (Decidable (_ ∨ _))

end ByteArray

/-! ### How many parts there are -/

variable {base count pos n len : Nat} {ios : List IoVec} {ba : ByteArray} {f : Flat}

/-- Every part has a byte at least. -/
theorem Covers.length_le (h : Covers base count pos ios len) : ios.length ≤ len := by
  induction h with
  | nil => exact Nat.le_refl _
  | cons _ _ hlen _ _ _ ih =>
    rw [List.length_cons]
    omega

/-- Parts of blocks of one byte. -/
theorem Covers.length_eq (h : Covers 1 count pos ios len) : ios.length = len := by
  induction h with
  | nil => rfl
  | cons _ _ hlen hin _ _ ih =>
    rw [List.length_cons]
    omega

/-- **There are as many parts as bytes** exactly when every part is one byte. -/
theorem Covers.length_eq_iff (h : Covers base count pos ios len) :
    ios.length = len ↔ base = 1 ∨ len ≤ 1 ∨ len = 2 ∧ (pos + 1) % base = 0 := by
  cases h with
  | nil => exact ⟨fun _ => .inr (.inl (Nat.zero_le 1)), fun _ => rfl⟩
  | @cons io ios _ len _ hpos hlen hin hlast hrest =>
    cases hrest with
    | nil =>
      rw [List.length_singleton, hpos]
      constructor
      · intro hone
        exact .inr (.inl (by omega))
      · rintro (rfl | hle | ⟨htwo, hmod⟩)
        · omega
        · omega
        · -- two bytes in one block do not have its end between them
          rw [Nat.add_assoc, Nat.mul_add_mod, Nat.mod_eq_of_lt (by omega)] at hmod
          omega
    | @cons io₂ ios₂ _ len₂ _ hpos₂ hlen₂ hin₂ hlast₂ hrest₂ =>
      have hend : io.offset + io.len = base := hlast.resolve_left (List.cons_ne_nil _ _)
      have hle₂ := hrest₂.length_le
      rw [List.length_cons, List.length_cons]
      constructor
      · intro heq
        have hone : io.len = 1 ∧ io₂.len = 1 := by omega
        rcases hlast₂ with rfl | hend₂
        · refine .inr (.inr ⟨?_, ?_⟩)
          · rw [List.length_nil] at heq
            omega
          · have hsum : pos + 1 = base * (io.node + 1) := by
              rw [Nat.mul_succ]
              omega
            rw [hsum, Nat.mul_mod_right]
        · -- the second part is a whole block
          have hzero : (base * io₂.node + io₂.offset) % base = 0 := by
            have hsum : base * io₂.node + io₂.offset = base * (io.node + 1) := by
              rw [Nat.mul_succ]
              omega
            rw [hsum, Nat.mul_mod_right]
          rw [Nat.mul_add_mod, Nat.mod_eq_of_lt (by omega)] at hzero
          exact .inl (by omega)
      · rintro (rfl | hle | ⟨htwo, -⟩)
        · have := hrest₂.length_eq
          omega
        · omega
        · omega

/-! ### One call -/

/-- Whatever `sendmsg` does, it is given the parts of `getReadBuffers` and told the number of bytes. -/
theorem socketWrite_call {kernel : Sendmsg} {call : SendCall} {r : Except String Nat} {ba' : ByteArray}
    (h : ba.socketWrite kernel n = some (call, r, ba')) :
    call.told = n ∧ ∃ ret, ba.getReadBuffers n = some (call.ios, ret) := by
  obtain ⟨⟨ios, ret⟩, hget, h⟩ := Option.bind_eq_some_iff.1 h
  obtain ⟨own, -, h⟩ := Option.bind_eq_some_iff.1 h
  obtain ⟨⟨r', ba₁⟩, -, h⟩ := Option.bind_eq_some_iff.1 h
  obtain ⟨rfl, -⟩ := Prod.mk.inj (Option.some.inj h)
  exact ⟨rfl, ret, hget⟩

/-- What `sendmsg` sends of some bytes. -/
theorem Sendmsg.sends_eq (kernel : Sendmsg) {bytes : Bytes} (hne : bytes ≠ []) :
    ∃ k, 0 < k ∧ k ≤ bytes.length ∧ kernel.sends bytes = bytes.take k := by
  have hlt := Nat.mod_lt kernel.choice (List.length_pos_iff.2 hne)
  exact ⟨_, Nat.succ_pos _, hlt, rfl⟩

/-- **One call with parts of one byte** sends some of the next bytes and moves the position behind
them. -/
theorem Simulates.socketWrite (h : Simulates base ba f) (hbase : 0 < base) (kernel : Sendmsg) (hn : 0 < n)
    (hle : n ≤ ba.getReadSize) (hsize : ba.size < sizeMod) (hsingle : ba.SingleBytes n) :
    ∃ call k ba', ba.socketWrite kernel n = some (call, .ok k, ba') ∧ 0 < k ∧ k ≤ n ∧
      call.sent = ba.readable.take k ∧ call.told ≤ call.ios.length ∧
      Simulates base ba' { f with position := f.position + k } := by
  obtain ⟨ios, hget, hcovers⟩ := h.getReadBuffers hbase n
  rw [Nat.min_eq_left hle] at hget hcovers
  have hcount : ios.length = n := by
    rw [hcovers.length_eq_iff, ← h.baseSize, ← h.position]
    exact hsingle
  have hread := h.size_le
  have hleft : ba.getReadSize = f.size - f.position := by rw [ByteArray.getReadSize, h.size, h.position]
  have hgather : ba.gather (ios.take n) = some (ba.readable.take n) := by
    rw [← hcount, List.take_length, hcovers.gather h.uniform, hcount, h.take_readable hle]
  have hlen : (ba.readable.take n).length = n := by
    rw [h.readable, List.length_take, List.length_drop, List.length_take]
    omega
  obtain ⟨k, hk, hkn, hsent⟩ := kernel.sends_eq (List.length_pos_iff.1 (hlen.symm ▸ hn))
  rw [hlen] at hkn
  rw [List.take_take, Nat.min_eq_left hkn] at hsent
  have hsentlen : (ba.readable.take k).length = k := by
    rw [← Nat.min_eq_left hkn, ← List.take_take, List.length_take, hlen]
  -- the position stays within the contents, so the sum does not wrap
  have hpos := h.position
  have hsz := h.size
  obtain ⟨ba', hset, h'⟩ := h.setPosition_of_le hbase (ba.position + k) (by omega)
  have hmax : max f.size (ba.position + k) = f.size := by omega
  rw [hmax, hpos] at h'
  refine ⟨⟨ios, n, ba.readable.take k⟩, k, ba', ?_, hk, hkn, rfl, Nat.le_of_eq hcount.symm, h'⟩
  rw [ByteArray.socketWrite, hget, Option.bind_eq_bind, Option.bind_some]
  dsimp only
  rw [hgather, Option.bind_eq_bind, Option.bind_some, if_neg (by omega), hsent, hsentlen, received_of_pos hk,
    Nat.mod_eq_of_lt (by omega), hset, Option.map_some, Option.bind_eq_bind, Option.bind_some]
  rfl

/-- It stays so for the rest of a write. -/
theorem ByteArray.SingleBytes.of_le {ba' : ByteArray} {k : Nat} (h : ba.SingleBytes n) (hk : 0 < k)
    (hbase : ba'.baseSize = ba.baseSize) : ba'.SingleBytes (n - k) := by
  rcases h with hone | hle | ⟨htwo, -⟩
  · exact .inl (hbase.trans hone)
  · exact .inr (.inl (by omega))
  · exact .inr (.inl (by omega))

/-! ### The loop -/

/-- **With parts of one byte the loop sends what is left**, however `sendmsg` cuts it. -/
theorem sendLoop_spec (hbase : 0 < base) (length : Nat) (kernel : Nat → Sendmsg) :
    ∀ (fuel left : Nat) {ba : ByteArray} {f : Flat}, Simulates base ba f → left ≤ fuel →
      left ≤ ba.getReadSize → ba.size < sizeMod → ba.SingleBytes left →
      ∃ run, ba.sendLoop length kernel fuel left = some run ∧ run.ret = some (.ok length) ∧
        run.sent = ba.readable.take left ∧ run.ba.position = ba.position + left ∧
        ∀ call ∈ run.calls, call.told ≤ call.ios.length
  | 0, left, ba, f, _, hfuel, _, _, _ => by
    obtain rfl := Nat.le_zero.1 hfuel
    exact ⟨_, rfl, rfl, rfl, rfl, fun call hcall => absurd hcall List.not_mem_nil⟩
  | fuel + 1, left, ba, f, h, hfuel, hle, hsize, hsingle => by
    rcases Nat.eq_zero_or_pos left with rfl | hleft
    · exact ⟨_, rfl, rfl, rfl, rfl, fun call hcall => absurd hcall List.not_mem_nil⟩
    obtain ⟨call, k, ba', hwrite, hk, hkn, hsent, htold, h'⟩ :=
      h.socketWrite hbase (kernel fuel) hleft hle hsize hsingle
    have hread : ba.getReadSize = f.size - f.position := by rw [ByteArray.getReadSize, h.size, h.position]
    have hread' : ba'.getReadSize = f.size - (f.position + k) := by
      rw [ByteArray.getReadSize, h'.size, h'.position]
    have hsub : (left + (sizeMod - k)) % sizeMod = left - k := by
      have hsz := h.size
      have hsum : left + (sizeMod - k) = left - k + sizeMod := by omega
      rw [hsum, Nat.add_mod_right, Nat.mod_eq_of_lt (by omega)]
    have hsame : ba'.size = ba.size := by rw [h'.size, h.size]
    obtain ⟨rest, hrest, hret, hsent', hpos', htold'⟩ :=
      sendLoop_spec hbase length kernel fuel (left - k) h' (by omega) (by omega) (by omega)
        (hsingle.of_le hk (h'.baseSize.trans h.baseSize.symm))
    refine ⟨{ rest with calls := call :: rest.calls }, ?_, hret, ?_, ?_, ?_⟩
    · rw [ByteArray.sendLoop, if_neg (by omega), hwrite, Option.bind_eq_bind, Option.bind_some]
      dsimp only
      rw [if_neg (by omega), hsub, hrest, Option.bind_eq_bind, Option.bind_some]
    · have hdrop : ba'.readable = ba.readable.drop k := by
        rw [h'.readable, h.readable, List.drop_drop]
      rw [hdrop] at hsent'
      rw [SendRun.sent, List.flatMap_cons, hsent]
      exact (congrArg _ hsent').trans (by rw [← List.take_add, Nat.add_sub_cancel' hkn])
    · rw [hpos', h'.position, h.position]
      dsimp only
      omega
    · intro c hc
      rcases List.mem_cons.1 hc with rfl | hc
      · exact htold
      · exact htold' c hc

/-- A loop that has something to send calls `socketWrite` first. -/
theorem sendLoop_first {length fuel left : Nat} {kernel : Nat → Sendmsg} {run : SendRun}
    (h : ba.sendLoop length kernel (fuel + 1) left = some run) (hleft : left ≠ 0) :
    ∃ call r ba', ba.socketWrite (kernel fuel) left = some (call, r, ba') ∧ call ∈ run.calls := by
  rw [ByteArray.sendLoop, if_neg hleft] at h
  obtain ⟨⟨call, r, ba'⟩, hwrite, h⟩ := Option.bind_eq_some_iff.1 h
  refine ⟨call, r, ba', hwrite, ?_⟩
  cases r with
  | error e =>
    obtain rfl := Option.some.inj h
    exact List.mem_singleton.2 rfl
  | ok len =>
    dsimp only at h
    split at h
    · obtain rfl := Option.some.inj h
      exact List.mem_singleton.2 rfl
    · obtain ⟨rest, -, h⟩ := Option.bind_eq_some_iff.1 h
      obtain rfl := Option.some.inj h
      exact List.mem_cons_self

/-- **Exactly when `writeFixSize(ba, n)` sends the next `n` bytes** and gives `sendmsg` no more than
the parts there are: when every part is one byte. -/
theorem sendsNext_iff (base : Nat) (hbase : 1 ≤ base) (ba : ByteArray) (h : Reachable base ba)
    (hsize : ba.size < sizeMod) (n : Nat) (hn : n ≤ ba.getReadSize) (kernel : Nat → Sendmsg) :
    ba.SendsNext kernel n ↔ ba.SingleBytes n := by
  obtain ⟨f, hf⟩ := h.simulates hbase
  constructor
  · rintro ⟨run, hrun, -, -, -, htold⟩
    cases n with
    | zero => exact .inr (.inl (Nat.zero_le 1))
    | succ n =>
      -- the first call is told `n + 1`, and there are only so many parts when each is a byte
      obtain ⟨call, r, ba', hwrite, hmem⟩ := sendLoop_first hrun (Nat.succ_ne_zero n)
      obtain ⟨heq, ret, hget⟩ := socketWrite_call hwrite
      obtain ⟨ios, hget', hcovers⟩ := hf.getReadBuffers hbase (n + 1)
      obtain ⟨rfl, -⟩ := Prod.mk.inj (Option.some.inj (hget'.symm.trans hget))
      rw [Nat.min_eq_left hn] at hcovers
      have hcount := Nat.le_antisymm hcovers.length_le (heq ▸ htold call hmem)
      rw [hcovers.length_eq_iff, ← hf.baseSize, ← hf.position] at hcount
      exact hcount
  · intro hsingle
    exact sendLoop_spec hbase n kernel n n hf (Nat.le_refl n) hn hsize hsingle

/-- `"hello"` in blocks of four bytes, to be read from the start. -/
def helloUnread : ByteArray := ⟨4, 0, 8, 5, [str "hell", str "o" ++ [0, 0, 0]], some 0⟩

/-- The array of the example can be reached. -/
theorem reachable_helloUnread : Reachable 4 helloUnread :=
  .setPosition 0 (.write (fun _ _ => 0) (str "hello") (.new fun _ _ => 0) rfl) rfl

/-- From position three the next two bytes are in two blocks, and are sent one by one. -/
theorem sendsNext_iff_helloUnread :
    ByteArray.SendsNext { helloUnread with position := 3 } (fun _ => ⟨0, []⟩) 2 ↔
      ByteArray.SingleBytes { helloUnread with position := 3 } 2 :=
  sendsNext_iff 4 (by decide) _ (.setPosition 3 reachable_helloUnread rfl) (by decide) 2 (by decide) _

/-- **Five bytes in two parts:** `sendmsg` is told five parts, and what is behind the two is sent, too. -/
theorem writeFixSize_helloUnread : Reachable 4 helloUnread ∧ 5 ≤ helloUnread.getReadSize ∧
    (helloUnread.socketWrite ⟨6, [9, 9]⟩ 5).map (fun r => (r.1.told, r.1.ios.length, r.1.sent)) =
      some (5, 2, str "hello" ++ [9, 9]) ∧
    ¬ helloUnread.SendsNext (fun _ => ⟨6, [9, 9]⟩) 5 := by
  refine ⟨reachable_helloUnread, by decide, by decide, ?_⟩
  rintro ⟨run, hrun, hret, -⟩
  have hthrows : (helloUnread.writeFixSize (fun _ => ⟨6, [9, 9]⟩) 5).map (·.ret) =
      some (some (.error "set_position out of range")) := by decide
  rw [hrun, Option.map_some, hret] at hthrows
  cases hthrows

end Buffer
end Wuchat
