/-
# Several calls on one stream

`sessionNotify` of several connections and the `PONG` inside `WSRecvMessage` send on
one stream at the same time.  A call is a sequence of `writeFixSize` loops, and
between two `write` calls of a loop any other fiber may run; nothing in the stream
or the session excludes it.

Every byte on the wire carries, for the proofs, the number of the call that wrote
it.  In every run the bytes of each call, taken out in order, are a part of its
frame from the start, and all of it once the call has returned (`Merged`).  In a run
in which a call writes only while no other call is inside its frame, the frames
stand one after the other (`Serial`).  Without that condition they need not
(`frames_interleave`).

A call with an empty payload closes the stream when its frame is out.  After that
every `write` of another call answers `-1`, and its loop goes on without writing
(`failed`).
-/

import Mathlib.Logic.Basic
import Wuchat.Foundation.System
import Wuchat.Http.WsFrame

namespace Wuchat
namespace Http

open Foundation Streams

/-- A call that sends on a stream; `rand` is the value `rand()` will give. -/
inductive WsCall
  | sendMessage (rand : Nat) (msg : WSFrameMessage) (client fin : Bool)
  | ping
  | pong
  deriving DecidableEq, Repr

/-- What a call does. -/
def WsCall.program : WsCall → Sender Int
  | sendMessage rand msg client fin => do
    let r ← WSSendMessage rand msg client fin
    pure r.1
  | ping => WSPing
  | pong => WSPong

/-- The frame of a call. -/
def WsCall.frame : WsCall → Bytes
  | sendMessage rand msg client fin => msg.frame rand client fin
  | ping => (controlHead WSFrameHead.PING).toBytes
  | pong => (controlHead WSFrameHead.PONG).toBytes

/-- **Left alone, a call writes its frame.** -/
theorem emitted_program (c : WsCall) : c.program.emitted = c.frame := by
  cases c with
  | sendMessage rand msg client fin =>
    rw [WsCall.program, Sender.emitted_bind, emitted_WSSendMessage]
    exact List.append_nil _
  | ping => exact emitted_sendControl _
  | pong => exact emitted_sendControl _

/-- Where a call stands: before one of its uses of the stream, or in the loop of
`writeFixSize`. -/
inductive Point
  | before (p : Sender Int)
  | writing (buf : Bytes) (offset left : Nat) (k : Nat → Sender Int)

/-- The call has returned. -/
def Point.done : Point → Bool
  | .before (.ret _) => true
  | _ => false

/-- A fiber inside a call; `failed` is whether a `write` has answered it `-1`. -/
structure Fiber where
  call : WsCall
  point : Point
  failed : Bool

/-- The call has returned. -/
def Fiber.Returned (f : Fiber) : Prop := f.point.done = true

/-- Whether a fiber has returned can be computed. -/
instance (f : Fiber) : Decidable f.Returned := inferInstanceAs (Decidable (_ = _))

/-- A stream and the fibers that send on it. -/
structure Wire where
  fibers : List Fiber
  out : List (Nat × UInt8)
  closed : Bool

/-- The steps: a fiber enters a call, or does its next step; `n` is the number of bytes
a `write` takes. -/
inductive Move
  | call (c : WsCall)
  | step (i n : Nat)

/-- The bytes of one call. -/
def tag (i : Nat) (bs : Bytes) : List (Nat × UInt8) := bs.map (Prod.mk i)

/-- One step of a fiber: the fiber after it, what it puts on the wire, and whether it
closes the stream. -/
def Fiber.step (f : Fiber) (closed : Bool) (n : Nat) : Option (Fiber × Bytes × Bool) :=
  match f.point with
  | .before (.ret _) => none
  | .before (.writeFixSize buf k) => some ({ f with point := .writing buf 0 buf.length k }, [], closed)
  | .before (.close p) => some ({ f with point := .before p }, [], true)
  | .writing buf offset left k =>
    if left = 0 then some ({ f with point := .before (k buf.length) }, [], closed)
    else if closed then
      some (⟨f.call, .writing buf ((offset + (sizeMod - 1)) % sizeMod) ((left + 1) % sizeMod) k, true⟩,
        [], closed)
    else if 0 < n ∧ n ≤ left then
      some ({ f with point := .writing buf ((offset + n) % sizeMod) (left - n) k },
        (buf.drop offset).take n, closed)
    else none

/-- The steps of a wire.  A frame fits the address space. -/
def Wire.next (s : Wire) : Move → Option Wire
  | .call c =>
    if c.frame.length < sizeMod then
      some { s with fibers := s.fibers ++ [⟨c, .before c.program, false⟩] }
    else none
  | .step i n =>
    match s.fibers[i]? with
    | none => none
    | some f => (f.step s.closed n).map fun (f', w, closed) =>
        { fibers := s.fibers.set i f', out := s.out ++ tag i w, closed := closed }

/-- A stream nobody sends on yet. -/
def wire : System Wire Move where
  init := ⟨[], [], false⟩
  next := Wire.next

/-- The bytes of the call `i` on the wire, in order. -/
def own (i : Nat) (out : List (Nat × UInt8)) : Bytes := (out.filter fun e => e.1 = i).map Prod.snd

/-- The bytes a call still has to write. -/
def Point.rest : Point → Bytes
  | .before p => p.emitted
  | .writing buf offset _ k => buf.drop offset ++ (k buf.length).emitted

/-- A call that is done has nothing left to write. -/
theorem Point.rest_of_done {p : Point} (h : p.done = true) : p.rest = [] := by
  unfold Point.done at h
  split at h
  · rfl
  · cases h

/-- A fiber's bytes in two parts of the output. -/
theorem own_append (i : Nat) (out out' : List (Nat × UInt8)) :
    own i (out ++ out') = own i out ++ own i out' := by
  rw [own, List.filter_append, List.map_append]
  rfl

/-- A fiber's bytes are those it wrote. -/
theorem own_tag_self (i : Nat) (bs : Bytes) : own i (tag i bs) = bs := by
  induction bs with
  | nil => rfl
  | cons b bs ih =>
    have hcons : own i (tag i (b :: bs)) = b :: own i (tag i bs) := by simp [own, tag]
    rw [hcons, ih]

/-- Another's are not. -/
theorem own_tag_of_ne {i j : Nat} (h : j ≠ i) (bs : Bytes) : own i (tag j bs) = [] := by
  simp [own, tag, h]

/-! ### Every call writes its frame in order -/

/-- Inside the loop of `writeFixSize`, what is done and what is left make the
buffer. -/
def Point.Loop : Point → Prop
  | .before _ => True
  | .writing buf offset left _ => offset + left = buf.length ∧ buf.length < sizeMod

/-- A fiber, the bytes it has put on the wire, and whether the stream is closed. -/
structure FiberOk (closed : Bool) (f : Fiber) (sent : Bytes) : Prop where
  fits : f.call.frame.length < sizeMod
  frame : f.failed = false → sent ++ f.point.rest = f.call.frame ∧ f.point.Loop
  lost : f.failed = true → closed = true ∧ sent <+: f.call.frame

/-- **One step of a fiber writes the next bytes of its frame.** -/
theorem Fiber.step_ok {f f' : Fiber} {closed closed' : Bool} {n : Nat} {sent w : Bytes}
    (h : FiberOk closed f sent) (hs : f.step closed n = some (f', w, closed')) :
    FiberOk closed' f' (sent ++ w) ∧ f'.call = f.call ∧ (closed = true → closed' = true) := by
  obtain ⟨call, point, failed⟩ := f
  unfold Fiber.step at hs
  split at hs
  · cases hs
  · -- the loop starts
    rename_i buf k hp
    obtain rfl : point = _ := hp
    cases hs
    rw [List.append_nil]
    refine ⟨⟨h.fits, fun hf => ?_, h.lost⟩, rfl, id⟩
    obtain ⟨hframe, -⟩ := h.frame hf
    have hlen := congrArg List.length hframe
    have hfits := h.fits
    simp only [Point.rest, Sender.emitted, List.length_append] at hlen hfits
    exact ⟨hframe, Nat.zero_add _, by omega⟩
  · rename_i p hp
    obtain rfl : point = _ := hp
    cases hs
    rw [List.append_nil]
    exact ⟨⟨h.fits, fun hf => ⟨(h.frame hf).1, trivial⟩, fun hf => ⟨rfl, (h.lost hf).2⟩⟩, rfl, fun _ => rfl⟩
  · rename_i buf offset left k hp
    obtain rfl : point = _ := hp
    split at hs
    · -- the loop is done
      rename_i h0
      cases hs
      rw [List.append_nil]
      refine ⟨⟨h.fits, fun hf => ⟨?_, trivial⟩, h.lost⟩, rfl, id⟩
      obtain ⟨hframe, hloop⟩ := h.frame hf
      obtain ⟨hloop, -⟩ : offset + left = buf.length ∧ _ := hloop
      rw [Point.rest, List.drop_of_length_le (by omega), List.nil_append] at hframe
      exact hframe
    split at hs
    · -- the stream is closed: the write answers `-1`
      rename_i hclosed
      cases hs
      rw [List.append_nil]
      refine ⟨⟨h.fits, by rintro ⟨⟩, fun _ => ⟨hclosed, ?_⟩⟩, rfl, id⟩
      cases hf : failed with
      | false => exact ⟨_, (h.frame hf).1⟩
      | true => exact (h.lost hf).2
    split at hs
    · -- the write takes `n` bytes
      rename_i hopen hn
      cases hs
      refine ⟨⟨h.fits, fun hf => ?_, fun hf => absurd (h.lost hf).1 hopen⟩, rfl, id⟩
      obtain ⟨hframe, hloop⟩ := h.frame hf
      obtain ⟨hloop, hlt⟩ : offset + left = buf.length ∧ buf.length < sizeMod := hloop
      have hmod : (offset + n) % sizeMod = offset + n := Nat.mod_eq_of_lt (by omega)
      rw [hmod]
      refine ⟨?_, by rw [← hloop]; show offset + n + (left - n) = _; omega, hlt⟩
      rw [← hframe, Point.rest, Point.rest, List.append_assoc, ← List.append_assoc (List.take n _),
        ← List.drop_drop, List.take_append_drop]
    · cases hs

/-- Every fiber keeps to its frame, and every byte on the wire is some call's. -/
structure WireOk (s : Wire) : Prop where
  fiber : ∀ i f, s.fibers[i]? = some f → FiberOk s.closed f (own i s.out)
  owner : ∀ e ∈ s.out, e.1 < s.fibers.length

/-- **What a step of the wire can be:** a new call, or a step of a fiber. -/
theorem Wire.next_cases {s t : Wire} {m : Move} (h : s.next m = some t) :
    (∃ c, m = .call c ∧ c.frame.length < sizeMod ∧
      t = { s with fibers := s.fibers ++ [⟨c, .before c.program, false⟩] }) ∨
    ∃ i n f f' w closed', m = .step i n ∧ s.fibers[i]? = some f ∧
      f.step s.closed n = some (f', w, closed') ∧
      t = { fibers := s.fibers.set i f', out := s.out ++ tag i w, closed := closed' } := by
  unfold Wire.next at h
  split at h
  · rename_i c
    split at h
    · rename_i hlt
      exact Or.inl ⟨c, rfl, hlt, (Option.some.inj h).symm⟩
    · cases h
  · rename_i i n
    split at h
    · cases h
    · rename_i f hf
      obtain ⟨⟨f', w, closed'⟩, hs, ht⟩ := Option.map_eq_some_iff.1 h
      exact Or.inr ⟨i, n, f, f', w, closed', rfl, hf, hs, ht.symm⟩

/-- A fiber that wrote nothing has none. -/
theorem own_eq_nil {i : Nat} {out : List (Nat × UInt8)} (h : ∀ e ∈ out, e.1 ≠ i) : own i out = [] := by
  rw [own, List.filter_eq_nil_iff.2, List.map_nil]
  intro e he
  simpa using h e he

/-- **Every step keeps every fiber to its frame.** -/
theorem wireOk_step {s t : Wire} {m : Move} (h : WireOk s) (hn : s.next m = some t) : WireOk t := by
  rcases Wire.next_cases hn with ⟨c, -, hlt, rfl⟩ | ⟨i, n, f, f', w, closed', -, hf, hs, rfl⟩
  · refine ⟨fun j g hg => ?_, fun e he => ?_⟩
    · rcases Nat.lt_trichotomy j s.fibers.length with hj | rfl | hj
      · rw [List.getElem?_append_left hj] at hg
        exact h.fiber j g hg
      · rw [List.getElem?_append_right (Nat.le_refl _), Nat.sub_self] at hg
        cases hg
        have hnone : own s.fibers.length s.out = [] :=
          own_eq_nil fun e he => Nat.ne_of_lt (h.owner e he)
        rw [hnone]
        exact ⟨hlt, fun _ => ⟨emitted_program c, trivial⟩, nofun⟩
      · rw [List.getElem?_eq_none (by rw [List.length_append, List.length_singleton]; omega)] at hg
        cases hg
    · have := h.owner e he
      rw [List.length_append]
      omega
  · obtain ⟨hok, -, hclosed⟩ := Fiber.step_ok (h.fiber i f hf) hs
    have hi : i < s.fibers.length := (List.getElem?_eq_some_iff.1 hf).1
    refine ⟨fun j g hg => ?_, fun e he => ?_⟩
    · rw [own_append]
      rcases eq_or_ne i j with rfl | hj
      · rw [List.getElem?_set_self hi] at hg
        cases hg
        rwa [own_tag_self]
      · rw [List.getElem?_set_ne hj] at hg
        have hg' := h.fiber j g hg
        rw [own_tag_of_ne hj, List.append_nil]
        exact ⟨hg'.fits, hg'.frame, fun hlost => ⟨hclosed (hg'.lost hlost).1, (hg'.lost hlost).2⟩⟩
    · rw [List.length_set]
      rcases List.mem_append.1 he with he | he
      · exact h.owner e he
      · obtain ⟨b, -, rfl⟩ := List.mem_map.1 he
        exact hi

/-- The bytes of every call are a part of its frame from the start; a call that has
returned, with no write refused, has all of its frame on the wire; every byte is some
call's. -/
structure Merged (s : Wire) : Prop where
  part : ∀ (i : Nat) (f : Fiber), s.fibers[i]? = some f → own i s.out <+: f.call.frame
  whole : ∀ (i : Nat) (f : Fiber), s.fibers[i]? = some f → f.Returned → f.failed = false →
    own i s.out = f.call.frame
  refused : ∀ (i : Nat) (f : Fiber), s.fibers[i]? = some f → f.failed = true → s.closed = true
  owner : ∀ e ∈ s.out, e.1 < s.fibers.length

/-- The output is merged from the frames. -/
theorem WireOk.merged {s : Wire} (h : WireOk s) : Merged s where
  part i f hf := by
    have hok := h.fiber i f hf
    cases hfail : f.failed with
    | false => exact ⟨_, (hok.frame hfail).1⟩
    | true => exact (hok.lost hfail).2
  whole i f hf := by
    intro hret hfail
    have hframe := ((h.fiber i f hf).frame hfail).1
    rwa [Point.rest_of_done hret, List.append_nil] at hframe
  refused i f hf hfail := ((h.fiber i f hf).lost hfail).1
  owner := h.owner

/-! ### One frame at a time -/

/-- The frame of the call `i`. -/
def Wire.frameOf (s : Wire) (i : Nat) : Bytes :=
  match s.fibers[i]? with
  | some f => f.call.frame
  | none => []

/-- The call `i` has written some of its frame and not all. -/
def Wire.Inside (s : Wire) (i : Nat) : Prop := own i s.out ≠ [] ∧ own i s.out ≠ s.frameOf i

/-- Whether a fiber is inside a frame can be computed. -/
instance (s : Wire) (i : Nat) : Decidable (s.Inside i) := inferInstanceAs (Decidable (_ ∧ _))

/-- A fiber moves only while no other call is inside its frame. -/
def OneAtATime (s : Wire) : Move → Prop
  | .call _ => True
  | .step i _ => ∀ j < s.fibers.length, j ≠ i → ¬s.Inside j

/-- Whether a move comes alone can be computed. -/
instance (s : Wire) : (m : Move) → Decidable (OneAtATime s m)
  | .call _ => .isTrue trivial
  | .step i _ => inferInstanceAs (Decidable (∀ j < s.fibers.length, j ≠ i → ¬s.Inside j))

/-- The frames of some calls, one after the other. -/
def Wire.blocks (s : Wire) (order : List Nat) : List (Nat × UInt8) :=
  (order.map fun i => tag i (s.frameOf i)).flatten

/-- **Frame after frame.**  What is on the wire is the complete frames of some calls,
each once, and after them a part of the frame of at most one call that is still
writing; every call that has returned, with no write refused, is among the first. -/
structure SerialAs (s : Wire) (order : List Nat) (cur : List (Nat × UInt8)) : Prop where
  nodup : order.Nodup
  calls : ∀ i ∈ order, i < s.fibers.length
  out : s.out = s.blocks order ++ cur
  current : cur = [] ∨ ∃ j part, j ∉ order ∧ cur = tag j part ∧ part ≠ [] ∧ part <+: s.frameOf j ∧
    part ≠ s.frameOf j

/-- The frames stand one after the other. -/
def Serial (s : Wire) : Prop :=
  ∃ order cur, SerialAs s order cur ∧
    ∀ (i : Nat) (f : Fiber), s.fibers[i]? = some f → f.Returned → f.failed = false → i ∈ order

/-- A fiber that is not in the order has no block. -/
theorem own_blocks_of_not_mem {s : Wire} {i : Nat} :
    ∀ {order : List Nat}, i ∉ order → own i (s.blocks order) = []
  | [], _ => rfl
  | j :: order, h => by
    have hj : j ≠ i := fun hji => h (hji ▸ List.mem_cons_self)
    have hrest : i ∉ order := fun hmem => h (List.mem_cons_of_mem _ hmem)
    rw [Wire.blocks, List.map_cons, List.flatten_cons, own_append, own_tag_of_ne hj, List.nil_append]
    exact own_blocks_of_not_mem hrest

/-- One that is has its frame. -/
theorem own_blocks_of_mem {s : Wire} {i : Nat} :
    ∀ {order : List Nat}, order.Nodup → i ∈ order → own i (s.blocks order) = s.frameOf i
  | j :: order, hnodup, h => by
    obtain ⟨hj, hnodup⟩ := List.nodup_cons.1 hnodup
    rw [Wire.blocks, List.map_cons, List.flatten_cons, own_append]
    rcases List.mem_cons.1 h with rfl | hmem
    · rw [own_tag_self]
      have hrest : own i (s.blocks order) = [] := own_blocks_of_not_mem hj
      rw [Wire.blocks] at hrest
      rw [hrest, List.append_nil]
    · have hji : j ≠ i := fun hc => hj (hc ▸ hmem)
      rw [own_tag_of_ne hji, List.nil_append]
      exact own_blocks_of_mem hnodup hmem

variable {s t : Wire} {order : List Nat} {cur : List (Nat × UInt8)}

/-- A frame on the wire is complete, or it is the one being written. -/
theorem SerialAs.own_cases (h : SerialAs s order cur) (i : Nat) :
    (i ∈ order ∧ own i s.out = s.frameOf i) ∨
      (i ∉ order ∧ cur = tag i (own i s.out) ∧ own i s.out ≠ s.frameOf i ∧ own i s.out ≠ []) ∨
      (i ∉ order ∧ own i s.out = [] ∧ (cur = [] ∨ ∃ j part, j ≠ i ∧ j ∉ order ∧ cur = tag j part ∧
        part ≠ [] ∧ part <+: s.frameOf j ∧ part ≠ s.frameOf j)) := by
  have hown : own i s.out = own i (s.blocks order) ++ own i cur := by rw [h.out, own_append]
  rcases Classical.em (i ∈ order) with hi | hi
  · refine Or.inl ⟨hi, ?_⟩
    have hcur : own i cur = [] := by
      rcases h.current with rfl | ⟨j, part, hj, rfl, -⟩
      · rfl
      · exact own_tag_of_ne (fun hji : j = i => hj (hji ▸ hi)) part
    rw [hown, own_blocks_of_mem h.nodup hi, hcur, List.append_nil]
  · rw [own_blocks_of_not_mem hi, List.nil_append] at hown
    rcases h.current with hcur | ⟨j, part, hj, hcur, hpart, hpre, hne⟩
    · subst hcur
      exact Or.inr (Or.inr ⟨hi, hown, Or.inl rfl⟩)
    · rcases eq_or_ne j i with rfl | hji
      · rw [hcur, own_tag_self] at hown
        exact Or.inr (Or.inl ⟨hi, by rw [hown, hcur], by rwa [hown], by rwa [hown]⟩)
      · rw [hcur, own_tag_of_ne hji] at hown
        exact Or.inr (Or.inr ⟨hi, hown, Or.inr ⟨j, part, hji, hj, hcur, hpart, hpre, hne⟩⟩)

/-- What is left of the order of frames when the calls are the same or more. -/
theorem SerialAs.congr (h : SerialAs s order cur) (hok : WireOk s) (hout : t.out = s.out)
    (hlen : s.fibers.length ≤ t.fibers.length)
    (hframe : ∀ i < s.fibers.length, t.frameOf i = s.frameOf i) : SerialAs t order cur := by
  have hblocks : t.blocks order = s.blocks order := by
    unfold Wire.blocks
    congr 1
    exact List.map_congr_left fun i hi => by rw [hframe i (h.calls i hi)]
  refine ⟨h.nodup, fun i hi => Nat.lt_of_lt_of_le (h.calls i hi) hlen, by rw [hout, hblocks, h.out], ?_⟩
  rcases h.current with hcur | ⟨j, part, hj, hcur, hpart, hpre, hne⟩
  · exact Or.inl hcur
  · obtain ⟨b, hb⟩ := List.exists_mem_of_ne_nil part hpart
    have hmem : (j, b) ∈ s.out := by
      rw [h.out, hcur]
      exact List.mem_append_right _ (List.mem_map_of_mem hb)
    have hfr : t.frameOf j = s.frameOf j := hframe j (hok.owner _ hmem)
    exact Or.inr ⟨j, part, hj, hcur, hpart, by rwa [hfr], by rwa [hfr]⟩

/-- A call writes the bytes `w` after its own earlier ones. -/
theorem SerialAs.extend (h : SerialAs s order cur) {i : Nat} {bs : Bytes} (hi : i ∉ order)
    (hlt : i < s.fibers.length) (hbs : bs ≠ []) (hpre : bs <+: s.frameOf i)
    (hlen : t.fibers.length = s.fibers.length) (hframe : ∀ j, t.frameOf j = s.frameOf j)
    (hout : t.out = s.blocks order ++ tag i bs) : ∃ order' cur', SerialAs t order' cur' := by
  have hblocks : t.blocks order = s.blocks order := by
    unfold Wire.blocks
    congr 1
    exact List.map_congr_left fun j _ => by rw [hframe j]
  rcases eq_or_ne bs (s.frameOf i) with hdone | hpart
  · -- the frame is complete
    refine ⟨order ++ [i], [], ?_, ?_, ?_, Or.inl rfl⟩
    · exact List.nodup_append.2 ⟨h.nodup, List.nodup_cons.2 ⟨List.not_mem_nil, List.nodup_nil⟩, by
        rintro a ha b hb rfl
        exact hi (List.mem_singleton.1 hb ▸ ha)⟩
    · intro j hj
      rw [hlen]
      rcases List.mem_append.1 hj with hj | hj
      · exact h.calls j hj
      · exact List.mem_singleton.1 hj ▸ hlt
    · have hlast : t.blocks (order ++ [i]) = t.blocks order ++ tag i (t.frameOf i) := by
        simp [Wire.blocks]
      rw [hlast, hblocks, hframe, ← hdone, hout, List.append_nil]
  · refine ⟨order, tag i bs, h.nodup, fun j hj => hlen ▸ h.calls j hj, by rw [hout, hblocks],
      Or.inr ⟨i, bs, hi, rfl, hbs, ?_, ?_⟩⟩
    · rwa [hframe]
    · rwa [hframe]

/-- The frame of a fiber. -/
theorem frameOf_eq {f : Fiber} {i : Nat} (h : s.fibers[i]? = some f) : s.frameOf i = f.call.frame := by
  rw [Wire.frameOf, h]

/-- **A step that meets the condition keeps the frames one after the other.** -/
theorem serialAs_step {m : Move} (hok : WireOk s) (h : SerialAs s order cur) (hone : OneAtATime s m)
    (hn : s.next m = some t) : ∃ order' cur', SerialAs t order' cur' := by
  have hokt := wireOk_step hok hn
  rcases Wire.next_cases hn with ⟨c, rfl, -, rfl⟩ | ⟨i, n, f, f', w, closed', rfl, hf, hs, rfl⟩
  · refine ⟨order, cur, h.congr hok rfl (by simp) fun j hj => ?_⟩
    rw [Wire.frameOf, Wire.frameOf, List.getElem?_append_left hj]
  · obtain ⟨-, hcall, -⟩ := Fiber.step_ok (hok.fiber i f hf) hs
    have hi : i < s.fibers.length := (List.getElem?_eq_some_iff.1 hf).1
    have hframe : ∀ j, Wire.frameOf ⟨s.fibers.set i f', s.out ++ tag i w, closed'⟩ j = s.frameOf j := by
      intro j
      rcases eq_or_ne i j with rfl | hj
      · rw [frameOf_eq (List.getElem?_set_self hi), frameOf_eq hf, hcall]
      · rw [Wire.frameOf, List.getElem?_set_ne hj, Wire.frameOf]
    rcases eq_or_ne w [] with rfl | hw
    · refine ⟨order, cur, h.congr hok (List.append_nil _) (by simp) fun j _ => hframe j⟩
    have hpre : own i s.out ++ w <+: s.frameOf i := by
      have hpart := hokt.merged.part i f' (List.getElem?_set_self hi)
      rwa [own_append, own_tag_self, hcall, ← frameOf_eq hf] at hpart
    have hlen : (Wire.fibers ⟨s.fibers.set i f', s.out ++ tag i w, closed'⟩).length = s.fibers.length :=
      List.length_set
    have hne : own i s.out ++ w ≠ [] := fun hc => hw (List.append_eq_nil_iff.1 hc).2
    rcases h.own_cases i with ⟨-, hall⟩ | ⟨hnot, hcur, -, -⟩ | ⟨hnot, hnil, hcur⟩
    · -- a complete frame has nothing left to write
      have hle := hpre.length_le
      rw [hall, List.length_append] at hle
      have hpos := List.length_pos_iff.2 hw
      omega
    · refine h.extend hnot hi hne hpre hlen hframe ?_
      show s.out ++ tag i w = _
      have hout := h.out
      rw [hcur] at hout
      have htag : tag i (own i s.out ++ w) = tag i (own i s.out) ++ tag i w := List.map_append
      rw [htag, ← List.append_assoc, ← hout]
    · rcases hcur with rfl | ⟨j, part, hji, hj, hcur, hpart, hjpre, hjne⟩
      · refine h.extend hnot hi hne hpre hlen hframe ?_
        show s.out ++ tag i w = _
        have hout := h.out
        rw [List.append_nil] at hout
        rw [hnil, List.nil_append, hout]
      · -- another call is inside its frame
        obtain ⟨b, hb⟩ := List.exists_mem_of_ne_nil part hpart
        have hmem : (j, b) ∈ s.out := by
          rw [h.out, hcur]
          exact List.mem_append_right _ (List.mem_map_of_mem hb)
        have hown : own j s.out = part := by
          rw [h.out, own_append, own_blocks_of_not_mem hj, hcur, own_tag_self, List.nil_append]
        exact absurd ⟨by rwa [hown], by rwa [hown]⟩ (hone j (hok.owner _ hmem) hji)

/-- A frame has a byte at least. -/
theorem WsCall.frame_ne_nil (c : WsCall) : c.frame ≠ [] := by
  cases c <;> exact List.cons_ne_nil _ _

/-- A call that has returned stands among the complete frames. -/
theorem SerialAs.serial (h : SerialAs s order cur) (hok : WireOk s) : Serial s := by
  refine ⟨order, cur, h, fun i f hf hret hfail => ?_⟩
  have hown := hok.merged.whole i f hf hret hfail
  rw [← frameOf_eq hf] at hown
  rcases h.own_cases i with ⟨hmem, -⟩ | ⟨-, -, hne, -⟩ | ⟨-, hnil, -⟩
  · exact hmem
  · exact absurd hown hne
  · rw [hnil, frameOf_eq hf] at hown
    exact absurd hown.symm f.call.frame_ne_nil

/-- **What several calls put on one stream.**  In every run the bytes of each call are,
in order, a part of its frame from the start, and the whole frame once the call has
returned; and in every run in which a fiber moves only while no other call is inside
its frame, the frames stand one after the other, each complete and each once. -/
theorem frames_on_the_wire {ls : List Move} {s : Wire} (h : wire.Run anyStep ls s) :
    Merged s ∧ (wire.Run OneAtATime ls s → Serial s) := by
  have hinit : WireOk wire.init := ⟨nofun, nofun⟩
  constructor
  · have hok : WireOk s := h.invariant (I := fun _ s => WireOk s) hinit
      fun _ _ _ _ hs _ hn => wireOk_step hs hn
    exact hok.merged
  · intro hrun
    have hinv : WireOk s ∧ ∃ order cur, SerialAs s order cur := by
      refine hrun.invariant (I := fun _ s => WireOk s ∧ ∃ order cur, SerialAs s order cur)
        ⟨hinit, [], [], List.nodup_nil, nofun, rfl, Or.inl rfl⟩ ?_
      rintro ls s m t ⟨hok, order, cur, hs⟩ hone hn
      exact ⟨wireOk_step hok hn, serialAs_step hok hs hone hn⟩
    obtain ⟨hok, order, cur, hs⟩ := hinv
    exact hs.serial hok

/-- A text message of a server, in one frame. -/
def textCall (data : Bytes) : WsCall := .sendMessage 0 ⟨1, data⟩ false true

/-- Two messages, one after the other; the second is written in pieces. -/
def twoInTurn : List Move :=
  [.call (textCall (str "a")), .call (textCall (str "b")), .step 0 0, .step 0 2, .step 0 0, .step 0 0,
    .step 0 1, .step 0 0, .step 1 0, .step 1 1, .step 1 1, .step 1 0, .step 1 0, .step 1 1, .step 1 0]

/-- Both frames are on the wire, one after the other. -/
theorem frames_on_the_wire_twoInTurn : ∃ s, wire.Run OneAtATime twoInTurn s ∧
    s.out.map Prod.snd = [0x81, 1, 97, 0x81, 1, 98] ∧ Merged s ∧ Serial s := by
  obtain ⟨s, hs, hout⟩ := Option.map_eq_some_iff.1 (show
    (wire.exec (fun s m => decide (OneAtATime s m)) wire.init twoInTurn).map
      (fun s => s.out.map Prod.snd) = some [0x81, 1, 97, 0x81, 1, 98] by decide)
  have hrun : wire.Run OneAtATime twoInTurn s := System.run_of_exec (fun _ _ h => of_decide_eq_true h) hs
  obtain ⟨hmerged, hserial⟩ := frames_on_the_wire (hrun.mono fun _ _ _ => trivial)
  exact ⟨s, hrun, hout, hmerged, hserial hrun⟩

/-- Two messages at once: the second call runs between the head and the data of the
first. -/
def twoAtOnce : List Move :=
  [.call (textCall (str "a")), .call (textCall (str "b")), .step 0 0, .step 0 2, .step 0 0, .step 1 0,
    .step 1 2, .step 1 0, .step 1 0, .step 1 1, .step 1 0, .step 0 0, .step 0 1, .step 0 0]

/-- **Frames can interleave.**  Both calls have returned, and what is on the wire is not
their two frames in either order. -/
theorem frames_interleave : ¬∀ ls s, wire.Run anyStep ls s → (∀ f ∈ s.fibers, f.Returned) →
    ∃ order : List Nat, order.Perm (List.range s.fibers.length) ∧
      s.out.map Prod.snd = (order.map s.frameOf).flatten := by
  intro hall
  obtain ⟨s, hs, hend⟩ := Option.map_eq_some_iff.1 (show
    (wire.exec (fun _ _ => true) wire.init twoAtOnce).map (fun s => (s.out.map Prod.snd,
      s.fibers.length, s.frameOf 0, s.frameOf 1, decide (∀ f ∈ s.fibers, f.Returned))) =
      some ([0x81, 1, 0x81, 1, 98, 97], 2, [0x81, 1, 97], [0x81, 1, 98], true) by decide)
  obtain ⟨hout, hlen, h0, h1, hret⟩ : s.out.map Prod.snd = [0x81, 1, 0x81, 1, 98, 97] ∧
      s.fibers.length = 2 ∧ s.frameOf 0 = [0x81, 1, 97] ∧ s.frameOf 1 = [0x81, 1, 98] ∧ _ := by
    simpa using hend
  obtain ⟨order, hperm, hflat⟩ := hall twoAtOnce s (System.run_of_exec (fun _ _ _ => trivial) hs) hret
  rw [hlen] at hperm
  rw [hout] at hflat
  -- the third byte of the first frame is not a head
  cases order with
  | nil => exact absurd hperm.length_eq (by decide)
  | cons i rest =>
    have hi : i ∈ List.range 2 := hperm.subset List.mem_cons_self
    rw [List.map_cons, List.flatten_cons] at hflat
    rcases Nat.lt_or_ge i 1 with hlt | hge
    · obtain rfl : i = 0 := by omega
      rw [h0] at hflat
      exact absurd (congrArg (fun bs => bs[2]?) hflat) (by simp)
    · obtain rfl : i = 1 := by
        have := List.mem_range.1 hi
        omega
      rw [h1] at hflat
      exact absurd (congrArg (fun bs => bs[2]?) hflat) (by simp)

end Http
end Wuchat
