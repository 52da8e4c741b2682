/-
# The size check of `WSRecvMessage`

The check compares `cur_len + length` with `websocket.message.max_size`, where `cur_len`
is an `int` and `length` an attacker-chosen `uint64_t`.  A frame passes it rightly when
the true sum is below the limit; then the buffer is resized to the true sum and the
payload is written behind the data received before (`Note.Sound`).

The sum wraps in two ways.  While the true total `t` is below `2^31`, `cur_len` is `t` and
the sum wraps when `t + length` reaches `2^64`.  From `2^31` on, which needs a limit that
large, `cur_len` is negative and the sum is `t + length - 2^32`.  `Honest` says that
neither happens, and `passes_sound_iff` that every call is sound exactly when all
frames of the stream that reach the check are honest.  Which frames reach it is read off
the bytes (`Reaches`).
-/

import Wuchat.Http.WsRecv

namespace Wuchat
namespace Http

open Foundation Streams

/-- A frame that passed the check did so rightly; its buffer has the true size, and the
read stayed in its part of the buffer. -/
def Note.Sound (maxSize : Nat) : Note → Prop
  | passed before length => before + length < maxSize
  | filled before length size writes =>
    size = before + length ∧ ∀ w ∈ writes, before ≤ w.1 ∧ w.1 + w.2 ≤ before + length

/-- A frame that claims `length` bytes after a true total of `total` does not make the sum
wrap below the limit. -/
def Honest (maxSize total length : Nat) : Prop :=
  if total < 2 ^ 31 then total + length < 2 ^ 64
  else ¬(2 ^ 32 ≤ total + length ∧ total + length < 2 ^ 32 + maxSize)

/-- **The frames that reach the size check**, in a stream received after a true total of
`total`: heads of other frames are skipped, and data frames that are accepted, not the
last of their message and there in full add to the total. -/
inductive Reaches (maxSize : Nat) (client : Bool) : Nat → Bytes → Nat → Nat → Prop
  | skip {total t length : Nat} {head : WSFrameHead} {rest : Bytes} :
      ¬head.IsData → Reaches maxSize client total rest t length →
      Reaches maxSize client total (head.toBytes ++ rest) t length
  | check {total : Nat} {head : WSFrameHead} {field rest : Bytes} :
      head.IsData → (client = false → head.mask = true) → field.length = lengthSize head.payload →
      Reaches maxSize client total (head.toBytes ++ (field ++ rest)) total
        (lengthValue head.payload field)
  | frame {total t length : Nat} {head : WSFrameHead} {field key payload rest : Bytes} :
      head.IsData → (client = false → head.mask = true) → head.fin = false →
      field.length = lengthSize head.payload → key.length = maskSize head.mask →
      payload.length = lengthValue head.payload field → payload ≠ [] →
      total + payload.length < maxSize → total < 2 ^ 31 →
      Reaches maxSize client (total + payload.length) rest t length →
      Reaches maxSize client total (head.toBytes ++ (field ++ (key ++ (payload ++ rest)))) t length

/-- The variables agree with the true total. -/
structure RecvState.Tracks (maxSize : Nat) (st : RecvState) : Prop where
  cur_len : st.cur_len = toInt32 st.total
  data : st.data.length = st.total
  below : st.total = 0 ∨ st.total < maxSize
  sound : ∀ note ∈ st.notes, note.Sound maxSize

/-- `cur_len` as the check sees it. -/
theorem toUint64_toInt32 {t : Nat} (h : t < 2 ^ 32) :
    toUint64 (toInt32 t) = if t < 2 ^ 31 then t else 2 ^ 64 - 2 ^ 32 + t := by
  unfold toUint64 toInt32
  split
  · rw [Int.bmod_eq_of_le (by omega) (by omega)]
    omega
  · have hb : Int.bmod t (2 ^ 32) = t - 2 ^ 32 := by
      rw [Int.bmod_def]
      omega
    rw [hb]
    omega

variable {maxSize : Nat}

/-- **An honest frame that passes the check passes it rightly.** -/
theorem Honest.of_pass {t length : Nat} (h : Honest maxSize t length) (ht : t < 2 ^ 32)
    (hlen : length < sizeMod) (hmax : maxSize < 2 ^ 32)
    (hpass : (toUint64 (toInt32 t) + length) % sizeMod < maxSize) :
    t < 2 ^ 31 ∧ t + length < maxSize := by
  rw [toUint64_toInt32 ht] at hpass
  unfold Honest at h
  unfold sizeMod at hpass hlen
  split at h
  · rename_i hlt
    rw [if_pos hlt] at hpass
    omega
  · rename_i hlt
    rw [if_neg hlt] at hpass
    omega

/-- **A frame that is not honest passes the check**, and wrongly. -/
theorem pass_of_not_honest {t length : Nat} (h : ¬Honest maxSize t length)
    (ht : t = 0 ∨ t < maxSize) (hlen : length < sizeMod) (hmax : maxSize < 2 ^ 32) :
    (toUint64 (toInt32 t) + length) % sizeMod < maxSize ∧ ¬t + length < maxSize := by
  rw [toUint64_toInt32 (by omega)]
  unfold Honest at h
  unfold sizeMod at hlen ⊢
  split at h
  · rename_i hlt
    rw [if_pos hlt]
    omega
  · rename_i hlt
    rw [if_neg hlt]
    omega

/-! ### Notes are only added -/

/-- The notes of a turn. -/
def Turn.notes : Turn → List Note
  | again st => st.notes
  | stop st => st.notes
  | done _ st => st.notes

variable {client : Bool} {head : WSFrameHead} {st : RecvState} {l l' : Link} {turn : Turn}

/-- An accepted payload adds no note. -/
theorem notes_acceptPayload (mask : Bytes) (length : Nat) :
    (acceptPayload head mask length st).notes = st.notes := by
  unfold acceptPayload
  dsimp only
  split <;> rfl

/-- The read of a payload adds notes. -/
theorem notes_recvPayload {mask : Bytes} {length : Nat}
    (h : recvPayload head mask length st l = .ok turn l') : st.notes <+: turn.notes := by
  obtain ⟨⟨v, data, writes⟩, l₁, -, h⟩ := Act.of_bind_ok h
  cases h
  split
  · exact List.prefix_append _ _
  · rw [notes_acceptPayload]
    exact List.prefix_append _ _

/-- So does a data frame. -/
theorem notes_recvData (h : recvData maxSize client head st l = .ok turn l') : st.notes <+: turn.notes := by
  unfold recvData at h
  split at h
  · cases h
    exact List.prefix_refl _
  obtain ⟨length?, l₁, -, h⟩ := Act.of_bind_ok h
  cases length? with
  | none =>
    cases h
    exact List.prefix_refl _
  | some length =>
    dsimp only at h
    split at h
    · cases h
      exact List.prefix_refl _
    obtain ⟨mask?, l₂, -, h⟩ := Act.of_bind_ok h
    cases mask? with
    | none =>
      cases h
      exact List.prefix_append _ _
    | some mask => exact (List.prefix_append _ _).trans (notes_recvPayload h)

/-- So does any frame. -/
theorem notes_recvFrame (h : recvFrame maxSize client st l = .ok turn l') : st.notes <+: turn.notes := by
  obtain ⟨⟨v, bytes, writes⟩, l₁, -, h⟩ := Act.of_bind_ok h
  dsimp only at h
  split at h
  · cases h
    exact List.prefix_refl _
  unfold recvAfterHead at h
  split at h
  · obtain ⟨r, l₂, -, h⟩ := Act.of_bind_ok h
    cases h
    split <;> exact List.prefix_refl _
  split at h
  · cases h
    exact List.prefix_refl _
  split at h
  · exact notes_recvData h
  · cases h
    exact List.prefix_refl _

/-- **A call ends with all the notes of its turns.** -/
theorem notes_recvLoop {n : Nat} {msg : Option WSFrameMessage} {notes : List Note}
    (h : recvLoop maxSize client n st l = .ok (msg, notes) l') : st.notes <+: notes := by
  induction n generalizing st l with
  | zero => cases h
  | succ n ih =>
    rw [recvLoop] at h
    obtain ⟨turn, l₁, hturn, h⟩ := Act.of_bind_ok h
    have hnotes := notes_recvFrame hturn
    cases turn with
    | again st' => exact hnotes.trans (ih h)
    | stop st' =>
      cases h
      exact hnotes
    | done msg' st' =>
      cases h
      exact hnotes

/-! ### Honest streams -/

/-- The turn is sound, and one that goes on leaves the frames of the rest of the stream. -/
def Turn.Fine (maxSize : Nat) (client : Bool) (total : Nat) (bs : Bytes) (l' : Link) : Turn → Prop
  | again st' => st'.Tracks maxSize ∧ ∃ bs', l'.Holds bs' ∧ bs'.length < bs.length ∧
      ∀ t length, Reaches maxSize client st'.total bs' t length → Reaches maxSize client total bs t length
  | stop st' => ∀ note ∈ st'.notes, note.Sound maxSize
  | done _ st' => ∀ note ∈ st'.notes, note.Sound maxSize

/-- A sum may be cut to 32 bits early. -/
theorem toInt32_add (a b : Int) : toInt32 (toInt32 a + b) = toInt32 (a + b) := Int.bmod_add_bmod

/-- The mask leaves the length. -/
theorem length_unmask (mask data : Bytes) (pos n : Nat) : (unmask mask data pos n).length = data.length :=
  List.length_mapIdx

/-- A note more. -/
theorem sound_append {notes : List Note} (note : Note) (h : ∀ n ∈ notes, n.Sound maxSize)
    (hnote : note.Sound maxSize) : ∀ n ∈ notes ++ [note], n.Sound maxSize := by
  intro n hn
  rcases List.mem_append.1 hn with hn | hn
  · exact h n hn
  · rwa [List.mem_singleton.1 hn]

/-- The position of the payload, while the total is small. -/
theorem RecvState.Tracks.pos (h : st.Tracks maxSize) (hlt : st.total < 2 ^ 31) :
    toUint64 st.cur_len = st.data.length := by
  rw [h.cur_len, h.data, toUint64_toInt32 (by omega), if_pos hlt]

/-- An accepted payload keeps the variables in step with the true total. -/
theorem RecvState.Tracks.accept (h : st.Tracks maxSize) (head : WSFrameHead) (mask : Bytes)
    {data : Bytes} {notes : List Note} {length : Nat} (hdata : data.length = st.total + length)
    (hsum : st.total + length < maxSize) (hnotes : ∀ note ∈ notes, note.Sound maxSize) :
    ∃ st', acceptPayload head mask length { st with data := data, notes := notes } =
        (if head.fin then .done ⟨st'.opcode, st'.data⟩ st' else .again st') ∧
      st'.total = st.total + length ∧ st'.Tracks maxSize := by
  refine ⟨_, rfl, rfl, ?_, ?_, .inr hsum, hnotes⟩
  · dsimp only
    rw [h.cur_len, toInt32_add, Int.natCast_add]
  · dsimp only
    split
    · rw [length_unmask, hdata]
    · exact hdata

/-- A payload of the true length is received soundly, into a buffer that stays in step;
`bs` is the stream from the head of the frame on. -/
theorem recvPayload_fine {bs rest : Bytes} {length : Nat} (hl : l.Holds rest) (hst : st.Tracks maxSize)
    (hmax : maxSize < 2 ^ 32) (mask : Bytes) (hsmall : st.total < 2 ^ 31)
    (hsum : st.total + length < maxSize) (hlt : rest.length < bs.length)
    (hframe : ∀ payload rest', rest = payload ++ rest' → payload.length = length → payload ≠ [] →
      head.fin = false → ∀ t n, Reaches maxSize client (st.total + length) rest' t n →
        Reaches maxSize client st.total bs t n) :
    ∃ turn l', recvPayload head mask length st l = .ok turn l' ∧
      turn.Fine maxSize client st.total bs l' := by
  obtain ⟨writes, l', hl', hwrites, hfull, hcut⟩ := holds_recvPayload head mask length st hl
    (hst.pos hsmall) (by rw [hst.data, sizeMod]; omega)
  rw [hst.data] at hwrites hfull hcut
  have hnotes := sound_append (.filled st.total length (st.total + length) writes) hst.sound
    ⟨rfl, hwrites⟩
  by_cases hthere : 0 < length ∧ length ≤ rest.length
  case neg =>
    obtain ⟨data, hstop⟩ := hcut (by omega)
    exact ⟨_, l', hstop, hnotes⟩
  obtain ⟨hpos, hle⟩ := hthere
  have hpay : (rest.take length).length = length := by
    rw [List.length_take]
    omega
  have hdata : (st.data ++ rest.take length).length = st.total + length := by
    rw [List.length_append, hst.data, hpay]
  obtain ⟨st', hacc, htotal, htracks⟩ := hst.accept head mask hdata hsum hnotes
  refine ⟨_, l', (hfull hpos hle).trans (congrArg (Res.ok · l') hacc), ?_⟩
  split
  · exact htracks.sound
  rename_i hfin
  refine ⟨htracks, _, hl', ?_, fun t n hreach => ?_⟩
  · rw [List.length_drop]
    omega
  · rw [htotal] at hreach
    refine hframe _ _ (List.take_append_drop length rest).symm hpay ?_ (by simpa using hfin) t n hreach
    rw [← List.length_pos_iff]
    omega

/-- **An honest data frame is received soundly.** -/
theorem recvData_fine {rest : Bytes} (hl : l.Holds rest) (hst : st.Tracks maxSize)
    (hmax : maxSize < 2 ^ 32) (hdata : head.IsData)
    (hon : ∀ t length, Reaches maxSize client st.total (head.toBytes ++ rest) t length →
      Honest maxSize t length) :
    ∃ turn l', recvData maxSize client head st l = .ok turn l' ∧
      turn.Fine maxSize client st.total (head.toBytes ++ rest) l' := by
  unfold recvData
  split
  · exact ⟨_, l, rfl, hst.sound⟩
  rename_i hguard
  have hmask : client = false → head.mask = true := by
    intro hc
    subst hc
    simpa using hguard
  obtain ⟨l₁, hl₁, hlength⟩ := holds_recvLength head.payload hl
  rw [Act.bind_ok hlength]
  by_cases hfield : lengthSize head.payload ≤ rest.length
  case neg =>
    rw [if_neg hfield]
    exact ⟨_, l₁, rfl, hst.sound⟩
  rw [if_pos hfield]
  dsimp only
  have hsplit : rest = rest.take (lengthSize head.payload) ++ rest.drop (lengthSize head.payload) :=
    (List.take_append_drop _ _).symm
  have hfieldlen : (rest.take (lengthSize head.payload)).length = lengthSize head.payload := by
    rw [List.length_take]
    omega
  generalize rest.take (lengthSize head.payload) = field at hsplit hfieldlen
  generalize rest.drop (lengthSize head.payload) = rest₁ at hsplit hl₁
  subst hsplit
  have hhon := hon _ _ (.check hdata hmask hfieldlen)
  have hbound := lengthValue_lt head.payload field
  split
  · exact ⟨_, l₁, rfl, hst.sound⟩
  rename_i hcheck
  have htotal : st.total < 2 ^ 32 := by
    have := hst.below
    omega
  rw [hst.cur_len] at hcheck
  obtain ⟨hsmall, hsum⟩ := hhon.of_pass htotal hbound hmax (by omega)
  have hnotes := sound_append (.passed st.total (lengthValue head.payload field)) hst.sound hsum
  obtain ⟨l₂, hl₂, hkey⟩ := holds_recvMask head.mask hl₁
  rw [Act.bind_ok hkey]
  by_cases hshort : maskSize head.mask ≤ rest₁.length
  case neg =>
    rw [if_neg hshort]
    exact ⟨_, l₂, rfl, hnotes⟩
  rw [if_pos hshort]
  have htracks : RecvState.Tracks maxSize
      { st with notes := st.notes ++ [.passed st.total (lengthValue head.payload field)] } :=
    ⟨hst.cur_len, hst.data, hst.below, hnotes⟩
  refine recvPayload_fine hl₂ htracks hmax _ hsmall hsum ?_ ?_
  · simp only [List.length_append, List.length_drop, WSFrameHead.length_toBytes]
    omega
  · intro payload rest' hrest hlen hne hfin t n hreach
    rw [← List.take_append_drop (maskSize head.mask) rest₁, hrest]
    rw [← hlen] at hreach
    refine .frame hdata hmask hfin hfieldlen ?_ hlen hne (by rwa [hlen]) hsmall hreach
    rw [List.length_take]
    omega

/-- **An honest turn is sound.** -/
theorem recvFrame_fine {bs : Bytes} (hl : l.Holds bs) (hst : st.Tracks maxSize)
    (hmax : maxSize < 2 ^ 32)
    (hon : ∀ t length, Reaches maxSize client st.total bs t length → Honest maxSize t length) :
    ∃ turn l', recvFrame maxSize client st l = .ok turn l' ∧
      turn.Fine maxSize client st.total bs l' := by
  match bs, hl, hon with
  | [], hl, _ =>
    obtain ⟨l', heq⟩ := recvFrame_short maxSize client st hl (by decide)
    exact ⟨_, l', heq, hst.sound⟩
  | [b], hl, _ =>
    obtain ⟨l', heq⟩ := recvFrame_short maxSize client st hl (Nat.lt_succ_self 1)
    exact ⟨_, l', heq, hst.sound⟩
  | b₀ :: b₁ :: rest, hl, hon =>
    have hhead : b₀ :: b₁ :: rest = (WSFrameHead.ofBytes b₀ b₁).toBytes ++ rest := by
      rw [WSFrameHead.toBytes_ofBytes]
      rfl
    rw [hhead] at hl hon ⊢
    by_cases hdata : (WSFrameHead.ofBytes b₀ b₁).IsData
    · obtain ⟨l₁, hl₁, heq⟩ := recvFrame_isData maxSize client st hl hdata
      rw [heq]
      exact recvData_fine hl₁ hst hmax hdata hon
    · obtain ⟨l', heq, hl'⟩ := recvFrame_skip maxSize client st hl hdata
      refine ⟨_, l', heq, hst, rest, hl', ?_, fun t length hreach => .skip hdata hreach⟩
      rw [List.length_append, WSFrameHead.length_toBytes]
      omega

/-- **An honest stream is received soundly**, with fuel for a turn for every byte. -/
theorem recvLoop_fine (hmax : maxSize < 2 ^ 32) {n : Nat} : ∀ {st : RecvState} {l : Link} {bs : Bytes},
    l.Holds bs → st.Tracks maxSize → bs.length < n →
    (∀ t length, Reaches maxSize client st.total bs t length → Honest maxSize t length) →
    ∃ msg notes l', recvLoop maxSize client n st l = .ok (msg, notes) l' ∧
      ∀ note ∈ notes, note.Sound maxSize := by
  induction n with
  | zero =>
    intro st l bs _ _ hlt
    omega
  | succ n ih =>
    intro st l bs hl hst hlt hon
    obtain ⟨turn, l₁, hturn, hfine⟩ := recvFrame_fine hl hst hmax hon
    rw [recvLoop, Act.bind_ok hturn]
    cases turn with
    | again st' =>
      obtain ⟨hst', bs', hl', hlen, hreach⟩ := hfine
      exact ih hl' hst' (by omega) fun t length h => hon t length (hreach t length h)
    | stop st' => exact ⟨none, st'.notes, _, rfl, hfine⟩
    | done msg st' => exact ⟨some msg, st'.notes, _, rfl, hfine⟩

/-! ### Frames that are not honest -/

/-- **A data frame that is not honest is noted as passed, wrongly.** -/
theorem recvData_wrong {field rest : Bytes} (hl : l.Holds (field ++ rest)) (hst : st.Tracks maxSize)
    (hmax : maxSize < 2 ^ 32) (hmask : client = false → head.mask = true)
    (hfield : field.length = lengthSize head.payload)
    (hnot : ¬Honest maxSize st.total (lengthValue head.payload field))
    (h : recvData maxSize client head st l = .ok turn l') :
    ∃ note ∈ turn.notes, ¬note.Sound maxSize := by
  obtain ⟨l₁, -, hcheck⟩ := recvData_check maxSize client st hl hmask hfield
  obtain ⟨hpass, hwrong⟩ := pass_of_not_honest hnot hst.below (lengthValue_lt _ _) hmax
  rw [hcheck, hst.cur_len, if_neg (by omega)] at h
  refine ⟨.passed st.total (lengthValue head.payload field), ?_, hwrong⟩
  have hmem : Note.passed st.total (lengthValue head.payload field) ∈
      st.notes ++ [.passed st.total (lengthValue head.payload field)] := by simp
  obtain ⟨mask?, l₂, -, h⟩ := Act.of_bind_ok h
  cases mask? with
  | none =>
    cases h
    exact hmem
  | some mask => exact (notes_recvPayload h).subset hmem

/-- **A sound call has met honest frames only.** -/
theorem honest_of_sound (hmax : maxSize < 2 ^ 32) {total t length : Nat} {bs : Bytes}
    (h : Reaches maxSize client total bs t length) :
    ∀ {n : Nat} {st : RecvState} {l : Link} {msg : Option WSFrameMessage} {notes : List Note} {l' : Link},
      l.Holds bs → st.Tracks maxSize → st.total = total →
      recvLoop maxSize client n st l = .ok (msg, notes) l' → (∀ note ∈ notes, note.Sound maxSize) →
      Honest maxSize t length := by
  induction h with
  | @skip total t length head rest hnot _ ih =>
    intro n st l msg notes l' hl hst htotal hloop hsound
    obtain - | n := n
    · cases hloop
    obtain ⟨l₁, heq, hl₁⟩ := recvFrame_skip maxSize client st hl hnot
    rw [recvLoop, Act.bind_ok heq] at hloop
    exact ih hl₁ hst htotal hloop hsound
  | @check total head field rest hdata hmask hfield =>
    intro n st l msg notes l' hl hst htotal hloop hsound
    obtain - | n := n
    · cases hloop
    refine Classical.byContradiction fun hnot => ?_
    obtain ⟨l₁, hl₁, heq⟩ := recvFrame_isData maxSize client st hl hdata
    rw [recvLoop] at hloop
    obtain ⟨turn, l₂, hturn, hloop⟩ := Act.of_bind_ok hloop
    rw [heq] at hturn
    rw [← htotal] at hnot
    obtain ⟨note, hmem, hwrong⟩ := recvData_wrong hl₁ hst hmax hmask hfield hnot hturn
    refine hwrong (hsound note ?_)
    cases turn with
    | again st' => exact (notes_recvLoop hloop).subset hmem
    | stop st' =>
      cases hloop
      exact hmem
    | done msg' st' =>
      cases hloop
      exact hmem
  | @frame total t length head field key payload rest hdata hmask hfin hfield hkey hpay hne hsum hsmall _ ih =>
    intro n st l msg notes l' hl hst htotal hloop hsound
    obtain - | n := n
    · cases hloop
    subst htotal
    obtain ⟨l₁, hl₁, heq⟩ := recvFrame_isData maxSize client st hl hdata
    obtain ⟨writes, l₂, hl₂, hwrites, hacc⟩ := recvData_accept maxSize client hl₁ hmask hfield hkey hpay hne
      (hst.pos hsmall) (by rwa [hst.data]) (by rw [hst.data, sizeMod]; omega)
    rw [hst.data] at hwrites hacc
    have hnotes := sound_append (.filled st.total payload.length (st.total + payload.length) writes)
      (sound_append (.passed st.total payload.length) hst.sound hsum) ⟨rfl, hwrites⟩
    have hlen : (st.data ++ payload).length = st.total + payload.length := by
      rw [List.length_append, hst.data]
    obtain ⟨st', haccept, htotal, htracks⟩ := hst.accept head (if head.mask then key else [0, 0, 0, 0])
      hlen hsum hnotes
    rw [haccept, hfin] at hacc
    rw [recvLoop, Act.bind_ok (heq.trans hacc)] at hloop
    exact ih hl₂ htracks htotal hloop hsound

/-- At the start of a call nothing has been received. -/
theorem RecvState.tracks_init : RecvState.init.Tracks maxSize :=
  ⟨by decide, rfl, .inl rfl, nofun⟩

/-- **The size check, for every stream of bytes.**  A call returns with every frame that
passed the check below the limit, every buffer of the true size and every payload written
in its own part, exactly when all frames that reach the check are honest. -/
theorem passes_sound_iff (maxSize : Nat) (client : Bool) (l : Link) (hmax : maxSize < 2 ^ 32)
    (hl : l.Holds l.input) :
    (∃ msg notes l', WSRecvMessage maxSize client l = .ok (msg, notes) l' ∧
      ∀ note ∈ notes, note.Sound maxSize) ↔
    ∀ t length, Reaches maxSize client 0 l.input t length → Honest maxSize t length := by
  constructor
  · rintro ⟨msg, notes, l', hcall, hsound⟩ t length hreach
    exact honest_of_sound hmax hreach hl RecvState.tracks_init rfl hcall hsound
  · intro hon
    exact recvLoop_fine hmax hl RecvState.tracks_init (Nat.lt_succ_self _) hon

/-- A stream that has just been opened. -/
def freshLink (input : Bytes) : Link := ⟨input, [], [], [], false⟩

/-- Two fragments, `hel` and `lo`, with a `PONG` head between them. -/
def twoFragments : Bytes :=
  [0x01, 0x83, 1, 2, 3, 4, 105, 103, 111] ++ ([0x8a, 0x00] ++ [0x80, 0x82, 1, 2, 3, 4, 109, 109])

/-- A fragment `hello`, then a last fragment that claims `2^64 - 5` bytes. -/
def wrapping : Bytes :=
  [0x01, 0x85, 0, 0, 0, 0, 104, 101, 108, 108, 111] ++
    [0x80, 0xff, 255, 255, 255, 255, 255, 255, 255, 251, 0, 0, 0, 0]

/-- The statement at a message of two frames. -/
theorem passes_sound_iff_twoFragments :
    WSRecvMessage 33554432 false (freshLink twoFragments) =
      .ok (some ⟨1, str "hello"⟩,
        [.passed 0 3, .filled 0 3 3 [(0, 3)], .passed 3 2, .filled 3 2 5 [(3, 2)]]) (freshLink []) ∧
    ∀ t length, Reaches 33554432 false 0 twoFragments t length → Honest 33554432 t length := by
  have hcall : WSRecvMessage 33554432 false (freshLink twoFragments) =
      .ok (some ⟨1, str "hello"⟩,
        [.passed 0 3, .filled 0 3 3 [(0, 3)], .passed 3 2, .filled 3 2 5 [(3, 2)]]) (freshLink []) := by
    decide
  refine ⟨hcall, (passes_sound_iff 33554432 false (freshLink twoFragments) (by decide)
    ⟨rfl, rfl, nofun, nofun⟩).1 ⟨_, _, _, hcall, ?_⟩⟩
  intro note hnote
  simp only [List.mem_cons, List.not_mem_nil, or_false] at hnote
  rcases hnote with rfl | rfl | rfl | rfl <;> simp [Note.Sound]

/-- **The sum wraps.**  After `hello`, a frame of `2^64 - 5` bytes passes the check of a
limit of 32 MB, the buffer is resized to nothing, and the bytes that follow are
written outside it. -/
theorem length_wraps :
    (∃ notes, WSRecvMessage 33554432 false (freshLink wrapping) =
        .ok (none, notes) { freshLink [] with closed := true } ∧
      Note.passed 5 (2 ^ 64 - 5) ∈ notes ∧ Note.filled 5 (2 ^ 64 - 5) 0 [] ∈ notes ∧
      ¬(Note.passed 5 (2 ^ 64 - 5)).Sound 33554432) ∧
    WSRecvMessage 33554432 false (freshLink (wrapping ++ [120])) = .fault := by
  refine ⟨⟨[.passed 0 5, .filled 0 5 5 [(0, 5)], .passed 5 (2 ^ 64 - 5), .filled 5 (2 ^ 64 - 5) 0 []],
    by decide, by simp, by simp, ?_⟩, by decide⟩
  simp [Note.Sound]

end Http
end Wuchat
