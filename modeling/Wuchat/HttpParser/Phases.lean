/-
# The vendored HTTP parser: in which order it calls back

`http_parser.h` names the callbacks and says little about their order.  Here is what a user of the
parser may count on: `Phase` is what has been told of a message so far, and `Phase.next` says which
callback may come then.

* A message begins with `on_message_begin`; the parts of its URL or of its reason phrase follow, at least
  one of them.
* Names and values of headers alternate, each in one or more parts, and `on_headers_complete`
  comes once, after the first line or after a value.
* The headers settle what body follows (`Phase.afterHeaders`): so many bytes, chunks, or all up to the end of
  the connection.  The parts of a body, or of a chunk, add up to what was announced.  No body follows when
  `on_headers_complete` answers 1 or 2, nor for a `CONNECT` that asks for an upgrade, whatever the headers announce.
* The last chunk is the one of size zero; header lines may follow it.
* `on_message_complete` comes last.

`Told` puts the state of the parser beside the phase, with the bytes of the body that are marked and not yet
handed out.  The work on every byte keeps it (`follows_byteProg`).
-/

import Wuchat.HttpParser.Runs

namespace Wuchat
namespace HttpParsing

open Foundation Http

/-! ### Events and phases -/

/-- A callback that was made: with the parser it saw, with its answer, with how many bytes. -/
inductive Event
  | notice (n : Notice) (p : HttpParser)
  | headersComplete (p : HttpParser) (r : Int)
  | data (m : Mark) (size : Nat)
  deriving DecidableEq

/-- What has been told of a message. -/
inductive Phase
  | idle
  | begun
  | line (m : Mark)
  | field (trailer : Bool)
  | value (trailer : Bool)
  /-- Of a body with an announced length, so much is left. -/
  | body (left : Nat)
  | untilEof
  /-- Between two chunks. -/
  | chunks
  | chunk (left : Nat)
  /-- After the size of the last chunk. -/
  | trailer
  /-- After the last chunk. -/
  | trailed
  deriving DecidableEq, Repr

/-- **The body that the headers and the answer of `on_headers_complete` announce.** -/
def Phase.afterHeaders (p : HttpParser) (r : Int) : Phase :=
  if r = 1 ∨ r = 2 ∨ p.flags.skipbody ∨ (p.upgrade ∧ p.method = .CONNECT) then .body 0
  else if p.flags.chunked then .chunks
  else if p.content_length ≠ ULLONG_MAX then .body p.content_length
  else if p.upgrade ∨ !http_message_needs_eof p then .body 0
  else .untilEof

/-- **The callbacks that may come in a phase**, and the phase after them. -/
def Phase.next : Phase → Event → Option Phase
  | idle, .notice .message_begin _ => some begun
  | begun, .data .url _ => some (line .url)
  | begun, .data .status _ => some (line .status)
  | line .url, .data .url _ => some (line .url)
  | line .status, .data .status _ => some (line .status)
  | line _, .data .header_field _ => some (field false)
  | line _, .headersComplete p r => some (afterHeaders p r)
  | field t, .data .header_field _ => some (field t)
  | field t, .data .header_value _ => some (value t)
  | value t, .data .header_value _ => some (value t)
  | value t, .data .header_field _ => some (field t)
  | value false, .headersComplete p r => some (afterHeaders p r)
  | value true, .notice .chunk_complete _ => some trailed
  | body left, .data .body size => if size ≤ left then some (body (left - size)) else none
  | body 0, .notice .message_complete _ => some idle
  | untilEof, .data .body _ => some untilEof
  | untilEof, .notice .message_complete _ => some idle
  | chunks, .notice .chunk_header p => some (if p.content_length = 0 then trailer else chunk p.content_length)
  | chunk left, .data .body size => if size ≤ left then some (chunk (left - size)) else none
  | chunk 0, .notice .chunk_complete _ => some chunks
  | trailer, .data .header_field _ => some (field true)
  | trailer, .notice .chunk_complete _ => some trailed
  | trailed, .notice .message_complete _ => some idle
  | _, _ => none

/-- The phases in which a block of header lines may go on or end. -/
def Phase.Lines (trailing : Bool) : Phase → Prop
  | line .url | line .status => trailing = false
  | trailer => trailing = true
  | value t => t = trailing
  | _ => False

/-! ### The phase of a state -/

/-- What has been told when the parser is in a state: with the flag of a trailer, the length it counts
down and the bytes of the body that are marked. -/
def State.Told (s : State) (trailing : Bool) (length pend : Nat) (ph : Phase) : Prop :=
  match s with
  | s_dead | s_start_req_or_res | s_start_res | s_start_req => ph = .idle
  | s_res_or_resp_H | s_res_H | s_res_HT | s_res_HTT | s_res_HTTP | s_res_http_major | s_res_http_dot
  | s_res_http_minor | s_res_http_end | s_res_first_status_code | s_res_status_code
  | s_res_status_start | s_req_method | s_req_spaces_before_url => trailing = false ∧ ph = .begun
  | s_req_schema | s_req_schema_slash | s_req_schema_slash_slash | s_req_server_start | s_req_server
  | s_req_server_with_at | s_req_path | s_req_query_string_start | s_req_query_string
  | s_req_fragment_start | s_req_fragment => trailing = false ∧ (ph = .begun ∨ ph = .line .url)
  | s_res_status => trailing = false ∧ (ph = .begun ∨ ph = .line .status)
  | s_req_http_start | s_req_http_H | s_req_http_HT | s_req_http_HTT | s_req_http_HTTP | s_req_http_I
  | s_req_http_IC | s_req_http_major | s_req_http_dot | s_req_http_minor | s_req_http_end
  | s_req_line_almost_done => trailing = false ∧ ph = .line .url
  | s_res_line_almost_done => trailing = false ∧ ph = .line .status
  | s_header_field_start | s_headers_almost_done => ph.Lines trailing
  | s_header_field => ph.Lines trailing ∨ ph = .field trailing
  | s_header_value_discard_ws | s_header_value_discard_ws_almost_done | s_header_value_discard_lws =>
    ph = .field trailing
  | s_header_value => ph = .field trailing ∨ ph = .value trailing
  | s_header_value_lws | s_header_almost_done => ph = .value trailing
  | s_chunk_size_start | s_chunk_size | s_chunk_parameters | s_chunk_size_almost_done => ph = .chunks
  | s_chunk_data => length ≠ 0 ∧ ph = .chunk (pend + length)
  | s_chunk_data_almost_done => ph = .chunk pend
  | s_chunk_data_done => ph = .chunk 0
  | s_body_identity => length ≠ 0 ∧ ph = .body (pend + length)
  | s_body_identity_eof => ph = .untilEof
  -- no byte ends in these
  | s_header_value_start | s_headers_done | s_message_done => False

/-- **What has been told**, with so many bytes of the body marked. -/
def Told (p : HttpParser) (pend : Nat) (ph : Phase) : Prop :=
  p.state.Told p.flags.trailing p.content_length pend ph

/-- **Every way through a program calls back in order**, from the marks `set`, with `pend` bytes of the
body marked, in the phase `ph`. -/
def Prog.Follows (set : MarkSet) (pend : Nat) (ph : Phase) : Prog → Prop
  | .next p _ => Told p (if set.body then pend + 1 else 0) ph
  | .exit p _ => p.http_errno ≠ .OK ∨ Told p 0 ph
  | .mark m k => k.Follows (set.put true m) pend ph
  | .data m withByte _ _ k =>
    if set.has m then
      ∀ size, (m = .body → size = if withByte then pend + 1 else pend) →
        ∃ ph', ph.next (.data m size) = some ph' ∧
          k.Follows (set.put false m) (if m = .body then 0 else pend) ph'
    else k.Follows set pend ph
  | .notify n _ p k => ∃ ph', ph.next (.notice n p) = some ph' ∧ k.Follows set pend ph'
  | .headersComplete p k =>
    ∀ r, ∃ ph', ph.next (.headersComplete p r) = some ph' ∧ (k r).Follows set pend ph'

section Follows

variable {p : HttpParser} {ch : UInt8} {set : MarkSet} {pend : Nat} {ph : Phase}

/-- A failure makes no callback. -/
theorem follows_fail {e : HttpErrno} (he : e ≠ .OK) : (fail e p).Follows set pend ph := .inl he

/-- A strict check fails, or its program follows. -/
theorem follows_strictCheck {cond : Prop} [Decidable cond] {k : Prog} (hk : ¬cond → k.Follows set pend ph) :
    (strictCheck cond p k).Follows set pend ph := by
  unfold strictCheck
  split
  · exact follows_fail (by decide)
  · exact hk ‹_›

/-- The count of the headers' bytes makes no callback. -/
theorem follows_countHeaderSize {v : Nat} {k : HttpParser → Prog}
    (hk : (k (addRead v p)).Follows set pend ph) : (countHeaderSize v p k).Follows set pend ph := by
  unfold countHeaderSize
  split
  · exact follows_fail (by decide)
  · exact hk

/-! ### The end of a message -/

/-- Between two messages nothing has been told. -/
theorem told_newMessage (q : HttpParser) (pend : Nat) : Told { q with state := newMessage q } pend .idle := by
  unfold Told
  rcases newMessage_cases q with hs | hs | hs <;> rw [hs] <;> rfl

/-- The last callback of an upgraded message, behind which the parser stops. -/
theorem follows_messageComplete_exit
    (hph : ∀ q : HttpParser, ph.next (.notice .message_complete q) = some .idle) :
    (messageComplete p fun p => .exit p 1).Follows set pend ph :=
  ⟨.idle, hph _, .inr (told_newMessage p 0)⟩

/-- The last callback of a message, behind which the next one may begin. -/
theorem follows_messageComplete_next
    (hph : ∀ q : HttpParser, ph.next (.notice .message_complete q) = some .idle) :
    (messageComplete p fun p => .next p .outer).Follows set pend ph :=
  ⟨.idle, hph _, told_newMessage p _⟩

/-- The end of a message makes the last callback, in either case. -/
theorem follows_messageDone
    (hph : ∀ q : HttpParser, ph.next (.notice .message_complete q) = some .idle) :
    (messageDone p).Follows set pend ph := by
  refine ⟨.idle, hph _, ?_⟩
  dsimp only
  split
  · exact .inr (told_newMessage p 0)
  · exact told_newMessage p _

/-- **The body that is announced is the one that is read.** -/
theorem follows_headersDone : (headersDone ch p).Follows .empty 0 (.afterHeaders p 0) := by
  refine follows_strictCheck fun _ => ?_
  have hnone : ∀ q : HttpParser, (Phase.body 0).next (.notice .message_complete q) = some .idle := fun _ => rfl
  dsimp only
  split
  · rename_i hexit
    have hph : Phase.afterHeaders p 0 = .body 0 := by
      unfold Phase.afterHeaders
      obtain ⟨hup, hmethod | hskip | hbody⟩ := hexit
      · simp [show p.upgrade = true from hup, show p.method = .CONNECT from hmethod]
      · simp [show p.flags.skipbody = true from hskip]
      · obtain ⟨hchunked, hlength⟩ := not_or.mp hbody
        have hends : ¬p.content_length ≠ ULLONG_MAX ∨ p.content_length = 0 := by
          by_cases hmax : p.content_length = ULLONG_MAX
          · exact .inl (not_not_intro hmax)
          · exact .inr (Nat.eq_zero_of_not_pos fun hpos => hlength ⟨hpos, hmax⟩)
        rcases hends with hmax | hzero
        · simp_all
        · simp_all
    rw [hph]
    exact follows_messageComplete_exit hnone
  rename_i hstay
  split
  · rename_i hskip
    have hph : Phase.afterHeaders p 0 = .body 0 := by simp [Phase.afterHeaders, show p.flags.skipbody = true from hskip]
    rw [hph]
    exact follows_messageComplete_next hnone
  rename_i hskip
  have hconnect : ¬(p.upgrade = true ∧ p.method = .CONNECT) := fun hc => hstay ⟨hc.1, .inl hc.2⟩
  have hannounced : Phase.afterHeaders p 0 =
      if p.flags.chunked then .chunks
      else if p.content_length ≠ ULLONG_MAX then .body p.content_length
      else if p.upgrade ∨ !http_message_needs_eof p then .body 0
      else .untilEof := by
    unfold Phase.afterHeaders
    rw [if_neg (by simp_all)]
  rw [hannounced]
  by_cases hchunked : p.flags.chunked = true
  · rw [if_pos hchunked, if_pos hchunked]
    rfl
  rw [if_neg hchunked, if_neg hchunked]
  by_cases hzero : p.content_length = 0
  · rw [if_pos hzero, if_pos (by rw [hzero]; decide), hzero]
    exact follows_messageComplete_next hnone
  rw [if_neg hzero]
  by_cases hmax : p.content_length = ULLONG_MAX
  · have hup : ¬p.upgrade = true := fun hup => hstay ⟨hup, .inr (.inr (by simp [hchunked, hmax]))⟩
    have hend : ¬p.content_length ≠ ULLONG_MAX := not_not_intro hmax
    rw [if_neg hend, if_neg hend]
    by_cases heof : (!http_message_needs_eof p) = true
    · rw [if_pos (.inr heof)]
      split
      · exact follows_messageComplete_next hnone
      · exact absurd heof ‹_›
    · rw [if_neg (not_or.mpr ⟨hup, heof⟩)]
      split
      · exact absurd ‹_› heof
      · rfl
  · rw [if_pos hmax, if_pos hmax]
    exact ⟨hzero, by simp [MarkSet.empty]⟩

/-- What follows the answer of `on_headers_complete`: a body, chunks, or the end of the message. -/
theorem follows_headersCompleted {r : Int} :
    (headersCompleted ch p r).Follows .empty 0 (.afterHeaders p r) := by
  unfold headersCompleted
  split
  · rename_i hr
    rw [hr]
    exact follows_headersDone
  split
  · rename_i hr
    let q : HttpParser := { p with flags := { p.flags with skipbody := true } }
    have hdone : (headersDone ch q).Follows .empty 0 (.afterHeaders q 0) := follows_headersDone
    simpa [q, Phase.afterHeaders, hr] using hdone
  split
  · rename_i hr
    let q : HttpParser := { p with upgrade := true, flags := { p.flags with skipbody := true } }
    have hdone : (headersDone ch q).Follows .empty 0 (.afterHeaders q 0) := follows_headersDone
    simpa [q, Phase.afterHeaders, hr] using hdone
  · exact follows_fail (by decide)

/-- The phases after which the headers, or the trailer, may end. -/
theorem Phase.Lines.next {trailing : Bool} (h : ph.Lines trailing) :
    (trailing = true ∧ ∀ q, ph.next (.notice .chunk_complete q) = some .trailed) ∨
      (trailing = false ∧ ∀ q r, ph.next (.headersComplete q r) = some (afterHeaders q r)) := by
  cases ph with
  | line m =>
    cases m with
    | url | status => exact .inr ⟨h, fun _ _ => rfl⟩
    | _ => exact h.elim
  | trailer => exact .inl ⟨h, fun _ => rfl⟩
  | value t =>
    obtain rfl : t = trailing := h
    cases t with
    | true => exact .inl ⟨rfl, fun _ => rfl⟩
    | false => exact .inr ⟨rfl, fun _ _ => rfl⟩
  | _ => exact h.elim

/-- The empty line ends the headers, or the trailer and with it the message. -/
theorem follows_headersAlmostDone (h : ph.Lines p.flags.trailing) :
    (headersAlmostDone ch p).Follows .empty 0 ph := by
  refine follows_strictCheck fun _ => ?_
  rcases h.next with ⟨htrail, hnext⟩ | ⟨htrail, hnext⟩
  · rw [if_pos htrail]
    exact ⟨.trailed, hnext _, follows_messageDone fun _ => rfl⟩
  rw [if_neg (by simp [htrail])]
  split
  · exact follows_fail (by decide)
  · exact fun r => ⟨_, hnext _ r, follows_headersCompleted⟩

/-! ### Header lines -/

/-- A header may begin after the first line and after another. -/
theorem Phase.Lines.field {trailing : Bool} (h : ph.Lines trailing) (size : Nat) :
    ph.next (.data .header_field size) = some (.field trailing) := by
  cases ph with
  | line m =>
    cases m with
    | url | status =>
      obtain rfl : trailing = false := h
      rfl
    | _ => exact h.elim
  | trailer =>
    obtain rfl : trailing = true := h
    rfl
  | value t =>
    obtain rfl : t = trailing := h
    rfl
  | _ => exact h.elim

/-- The first byte of a header line makes no callback but at its end. -/
theorem follows_headerFieldStart (h : ph.Lines p.flags.trailing) :
    (headerFieldStart ch p).Follows .empty 0 ph := by
  unfold headerFieldStart
  split
  · exact h
  split
  · exact follows_headersAlmostDone h
  split
  · exact follows_fail (by decide)
  · exact .inl h

/-- The bytes of a name: the name is told at the colon. -/
theorem follows_headerField {k : Nat} (hs : p.state = .s_header_field)
    (h : ph.Lines p.flags.trailing ∨ ph = .field p.flags.trailing) :
    (headerField k ch p).Follows { MarkSet.empty with header_field := true } 0 ph := by
  unfold headerField
  split
  · rename_i c _
    obtain ⟨hstate, -, -, htrail⟩ := sameLine_fieldChar ch c p
    show Told _ 0 ph
    rw [Told, hstate, htrail, hs]
    exact h
  refine follows_countHeaderSize ?_
  split
  · intro size _
    refine ⟨.field p.flags.trailing, ?_, rfl⟩
    rcases h with hlines | rfl
    · exact hlines.field size
    · rfl
  · exact follows_fail (by decide)

/-- The phases of a value, and the part of it that comes next. -/
theorem value_next {trailing : Bool} (h : ph = .field trailing ∨ ph = .value trailing) (size : Nat) :
    ph.next (.data .header_value size) = some (.value trailing) := by
  rcases h with rfl | rfl <;> rfl

/-- The first byte of a value follows the name. -/
theorem follows_headerValueStart (h : ph = .field p.flags.trailing ∨ ph = .value p.flags.trailing) :
    (headerValueStart ch p).Follows .empty 0 ph := by
  unfold headerValueStart
  dsimp only [Prog.Follows]
  split
  case h_3 =>
    split
    · exact follows_fail (by decide)
    split
    · exact follows_fail (by decide)
    · exact h
  all_goals exact h

/-- The line feed of a header line follows its value. -/
theorem follows_headerAlmostDone (h : ph = .value p.flags.trailing) :
    (headerAlmostDone ch p).Follows .empty 0 ph := by
  unfold headerAlmostDone
  split
  · exact follows_fail (by decide)
  · exact h

/-- The bytes of a value: the value is told at the end of its line. -/
theorem follows_headerValue {k general : Nat} (hs : p.state = .s_header_value)
    (h : ph = .field p.flags.trailing ∨ ph = .value p.flags.trailing) :
    (headerValue k general ch p).Follows { MarkSet.empty with header_value := true } 0 ph := by
  have hstay : ∀ q : HttpParser, q.state = p.state → q.flags.trailing = p.flags.trailing → Told q 0 ph := by
    intro q hstate htrail
    rw [Told, hstate, htrail, hs]
    exact h
  unfold headerValue
  split
  · exact hstay p rfl rfl
  split
  · exact fun size _ => ⟨_, value_next h size, follows_countHeaderSize rfl⟩
  split
  · exact follows_countHeaderSize fun size _ => ⟨_, value_next h size, follows_headerAlmostDone rfl⟩
  split
  · exact follows_fail (by decide)
  split
  · exact follows_fail (errno_valueChar ‹_›)
  · obtain ⟨hstate, -, -, htrail⟩ := sameLine_valueChar ‹_›
    exact hstay _ hstate htrail

/-- The blanks before a value follow its name. -/
theorem follows_headerValueDiscardWs (hs : p.state = .s_header_value_discard_ws)
    (h : ph = .field p.flags.trailing) : (headerValueDiscardWs ch p).Follows .empty 0 ph := by
  unfold headerValueDiscardWs
  split
  · show Told p 0 ph
    rw [Told, hs]
    exact h
  split
  · exact h
  split
  · exact h
  · exact follows_headerValueStart (.inl h)

/-- The byte behind a header line follows its value. -/
theorem follows_headerValueLws (h : ph = .value p.flags.trailing) :
    (headerValueLws ch p).Follows .empty 0 ph := by
  unfold headerValueLws
  split
  · exact follows_headerValueStart (.inr h)
  · refine follows_headerFieldStart ?_
    rw [h]
    exact (flagOf_trailing _ _).symm

/-- The byte behind an empty value tells the value, which has no byte. -/
theorem follows_headerValueDiscardLws (h : ph = .field p.flags.trailing) :
    (headerValueDiscardLws ch p).Follows .empty 0 ph := by
  unfold headerValueDiscardLws
  split
  · exact h
  split
  · exact follows_fail (by decide)
  · exact fun size _ => ⟨_, value_next (.inl h) size, follows_headerFieldStart (flagOf_trailing _ _).symm⟩

/-! ### First lines -/

/-- A message begins. -/
theorem follows_begin {q : HttpParser} (h : Told q 0 .begun) :
    (Prog.notify .message_begin 1 q (.next q .outer)).Follows .empty 0 .idle :=
  ⟨.begun, rfl, h⟩

/-- The first byte of a request tells the beginning of the message. -/
theorem follows_startReq (h : Told p 0 .idle) : (startReq ch p).Follows .empty 0 .idle := by
  unfold startReq
  split
  · exact h
  dsimp only
  split
  · exact follows_fail (by decide)
  split
  · exact follows_fail (by decide)
  · exact follows_begin ⟨rfl, rfl⟩

/-- So does the first byte of a message of either kind. -/
theorem follows_startReqOrRes (h : Told p 0 .idle) : (startReqOrRes ch p).Follows .empty 0 .idle := by
  unfold startReqOrRes
  split
  · exact h
  dsimp only
  split
  · exact follows_begin ⟨rfl, rfl⟩
  · exact follows_startReq rfl

/-- So does the first byte of a response. -/
theorem follows_startRes (h : Told p 0 .idle) : (startRes ch p).Follows .empty 0 .idle := by
  unfold startRes
  split
  · exact h
  dsimp only
  split
  · exact follows_begin ⟨rfl, rfl⟩
  · exact follows_fail (by decide)

/-- The second byte of a message of either kind makes no callback. -/
theorem follows_resOrRespH (htrail : p.flags.trailing = false) : (resOrRespH ch p).Follows .empty 0 .begun := by
  unfold resOrRespH
  split
  · exact ⟨htrail, rfl⟩
  split
  · exact follows_fail (by decide)
  · exact ⟨htrail, rfl⟩

/-- The bytes of a method make no callback. -/
theorem follows_reqMethod (hs : p.state = .s_req_method) (htrail : p.flags.trailing = false) :
    (reqMethod ch p).Follows .empty 0 .begun := by
  have hnext : ∀ q : HttpParser, q.state = p.state → q.flags = p.flags → Told q 0 .begun := by
    intro q hstate hflags
    rw [Told, hstate, hflags, hs]
    exact ⟨htrail, rfl⟩
  unfold reqMethod
  split
  · exact follows_fail (by decide)
  dsimp only
  split
  · exact ⟨htrail, rfl⟩
  split
  · exact hnext _ rfl rfl
  split
  · split
    · exact follows_fail (by decide)
    · exact hnext _ rfl rfl
  · exact follows_fail (by decide)

/-- The phases of a URL. -/
theorem told_inUrl {s : State} (hs : s.inUrl = true) {trailing : Bool} {length : Nat} (htrail : trailing = false)
    (h : ph = .begun ∨ ph = .line .url) : s.Told trailing length pend ph := by
  cases s <;> first
    | exact ⟨htrail, h⟩
    | cases hs

/-- A byte of the URL makes no callback. -/
theorem follows_urlChar {s : State} (htrail : p.flags.trailing = false) (h : ph = .begun ∨ ph = .line .url) :
    (urlChar s ch p).Follows { MarkSet.empty with url := true } 0 ph := by
  unfold urlChar
  dsimp only
  split
  · exact follows_fail (by decide)
  · exact told_inUrl ((parse_url_char_inUrl s ch).resolve_right ‹_›) htrail h

/-- The blanks before the URL make no callback. -/
theorem follows_reqSpacesBeforeUrl (hs : p.state = .s_req_spaces_before_url) (htrail : p.flags.trailing = false) :
    (reqSpacesBeforeUrl ch p).Follows .empty 0 .begun := by
  unfold reqSpacesBeforeUrl
  split
  · show Told p 0 .begun
    rw [Told, hs]
    exact ⟨htrail, rfl⟩
  · exact follows_urlChar htrail (.inl rfl)

/-- The bytes of a scheme make no callback. -/
theorem follows_reqSchema (htrail : p.flags.trailing = false) (h : ph = .begun ∨ ph = .line .url) :
    (reqSchema ch p).Follows { MarkSet.empty with url := true } 0 ph := by
  unfold reqSchema
  split
  · exact follows_fail (by decide)
  · exact follows_urlChar htrail h

/-- The URL is told at its end. -/
theorem follows_reqUrl (htrail : p.flags.trailing = false) (h : ph = .begun ∨ ph = .line .url) :
    (reqUrl ch p).Follows { MarkSet.empty with url := true } 0 ph := by
  have hnext : ∀ size, ph.next (.data .url size) = some (.line .url) := by
    rcases h with rfl | rfl <;> exact fun _ => rfl
  unfold reqUrl
  split
  · exact fun size _ => ⟨_, hnext size, htrail, rfl⟩
  split
  · refine fun size _ => ⟨_, hnext size, ?_⟩
    by_cases hcr : ch = CR
    · simp only [hcr, if_true]
      exact ⟨htrail, rfl⟩
    · simp only [hcr, if_false]
      exact htrail
  · exact follows_urlChar htrail h

/-- The blanks before the version follow the URL. -/
theorem follows_reqHttpStart (hs : p.state = .s_req_http_start) (htrail : p.flags.trailing = false) :
    (reqHttpStart ch p).Follows .empty 0 (.line .url) := by
  unfold reqHttpStart
  split
  · show Told p 0 _
    rw [Told, hs]
    exact ⟨htrail, rfl⟩
  split
  · exact ⟨htrail, rfl⟩
  split
  · exact ⟨htrail, rfl⟩
  · exact follows_fail (by decide)

/-- A digit of the version makes no callback. -/
theorem follows_versionDigit {k : Nat → HttpParser} (hk : ∀ n, Told (k n) 0 ph) :
    (versionDigit ch p k).Follows .empty 0 ph := by
  unfold versionDigit
  split
  · exact follows_fail (by decide)
  · exact hk _

/-- A character of `HTTP/1.1` makes none. -/
theorem follows_versionChar {c : Char} {s : State} (h : Told { p with state := s } 0 ph) :
    (versionChar c s ch p).Follows .empty 0 ph := by
  unfold versionChar
  split
  · exact follows_fail (by decide)
  · exact h

/-- A byte that must be a given one makes none. -/
theorem follows_expect {c : Char} {s : State} (h : Told { p with state := s } 0 ph) :
    (expect c s ch p).Follows .empty 0 ph :=
  follows_strictCheck fun _ => h

/-- The end of the request line makes none. -/
theorem follows_reqHttpEnd (htrail : p.flags.trailing = false) :
    (reqHttpEnd ch p).Follows .empty 0 (.line .url) := by
  unfold reqHttpEnd
  split
  · exact ⟨htrail, rfl⟩
  split
  · exact htrail
  · exact follows_fail (by decide)

/-- The line feed behind it makes none. -/
theorem follows_reqLineAlmostDone (htrail : p.flags.trailing = false) :
    (reqLineAlmostDone ch p).Follows .empty 0 (.line .url) := by
  unfold reqLineAlmostDone
  split
  · exact follows_fail (by decide)
  · exact htrail

/-- The first digit of a status makes none. -/
theorem follows_resFirstStatusCode (hs : p.state = .s_res_first_status_code) (htrail : p.flags.trailing = false) :
    (resFirstStatusCode ch p).Follows .empty 0 .begun := by
  unfold resFirstStatusCode
  split
  · exact ⟨htrail, rfl⟩
  split
  · show Told p 0 _
    rw [Told, hs]
    exact ⟨htrail, rfl⟩
  · exact follows_fail (by decide)

/-- The reason is told at its end. -/
theorem follows_resStatus (hs : p.state = .s_res_status) (htrail : p.flags.trailing = false)
    (h : ph = .begun ∨ ph = .line .status) :
    (resStatus ch p).Follows { MarkSet.empty with status := true } 0 ph := by
  have hnext : ∀ size, ph.next (.data .status size) = some (.line .status) := by
    rcases h with rfl | rfl <;> exact fun _ => rfl
  unfold resStatus
  split
  · exact fun size _ => ⟨_, hnext size, htrail, rfl⟩
  split
  · exact fun size _ => ⟨_, hnext size, htrail⟩
  · show Told p 0 ph
    rw [Told, hs]
    exact ⟨htrail, h⟩

/-- The first byte of a reason, or the end of a line without one. -/
theorem follows_resStatusStart (htrail : p.flags.trailing = false) :
    (resStatusStart ch p).Follows .empty 0 .begun := by
  show Prog.Follows { MarkSet.empty with status := true } 0 .begun (if ch = CR ∨ ch = LF then _ else _)
  split
  · exact follows_resStatus rfl htrail (.inl rfl)
  · exact ⟨htrail, .inl rfl⟩

/-- The digits of a status make no callback. -/
theorem follows_resStatusCode (hs : p.state = .s_res_status_code) (htrail : p.flags.trailing = false) :
    (resStatusCode ch p).Follows .empty 0 .begun := by
  unfold resStatusCode
  split
  · dsimp only
    split
    · exact follows_fail (by decide)
    · show State.Told p.state _ _ _ _
      rw [hs]
      exact ⟨htrail, rfl⟩
  split
  · exact ⟨htrail, rfl⟩
  split
  · exact follows_resStatusStart htrail
  · exact follows_fail (by decide)

/-! ### Bodies -/

/-- The part of a body that comes next, out of what is left. -/
theorem body_next {left size : Nat} (h : size ≤ left) :
    (Phase.body left).next (.data .body size) = some (.body (left - size)) := if_pos h

/-- The part of a chunk that comes next, out of what is left. -/
theorem chunk_next {left size : Nat} (h : size ≤ left) :
    (Phase.chunk left).next (.data .body size) = some (.chunk (left - size)) := if_pos h

/-- The bytes of a body: the body is told with the last of them. -/
theorem follows_bodyIdentity (hs : p.state = .s_body_identity) (hlength : p.content_length ≠ 0) (b : Bool) :
    (bodyIdentity p).Follows { MarkSet.empty with body := b } pend (.body (pend + p.content_length)) := by
  show Prog.Follows { MarkSet.empty with body := true } pend _ (if p.content_length - 1 = 0 then _ else _)
  split
  · rename_i hlast
    intro size hsize
    have hall : size = pend + 1 := hsize rfl
    refine ⟨_, body_next (by omega), ?_⟩
    rw [show pend + p.content_length - size = 0 by omega]
    exact follows_messageDone fun _ => rfl
  · rename_i hmore
    show State.Told p.state _ _ _ _
    rw [hs]
    refine ⟨hmore, congrArg Phase.body ?_⟩
    simp only [if_true]
    omega

/-- The first digit of a chunk's size makes no callback. -/
theorem follows_chunkSizeStart : (chunkSizeStart ch p).Follows .empty 0 .chunks := by
  unfold chunkSizeStart
  split
  · exact follows_fail (by decide)
  · rfl

/-- The digits of a chunk's size make none. -/
theorem follows_chunkSize (hs : p.state = .s_chunk_size) : (chunkSize ch p).Follows .empty 0 .chunks := by
  unfold chunkSize
  split
  · rfl
  split
  · split
    · rfl
    · exact follows_fail (by decide)
  split
  · exact follows_fail (by decide)
  · show State.Told p.state _ _ _ _
    rw [hs]
    rfl

/-- The parameters of a chunk make none. -/
theorem follows_chunkParameters (hs : p.state = .s_chunk_parameters) :
    (chunkParameters ch p).Follows .empty 0 .chunks := by
  unfold chunkParameters
  split
  · rfl
  · show State.Told p.state _ _ _ _
    rw [hs]
    rfl

/-- The line feed behind a chunk's size tells the chunk's header. -/
theorem follows_chunkSizeAlmostDone : (chunkSizeAlmostDone ch p).Follows .empty 0 .chunks := by
  refine follows_strictCheck fun _ => ?_
  dsimp only
  split
  · rename_i hlast
    exact ⟨_, congrArg some (if_pos hlast), rfl⟩
  · rename_i hmore
    refine ⟨_, congrArg some (if_neg hmore), hmore, ?_⟩
    simp [MarkSet.empty]

/-- The bytes of a chunk make no callback. -/
theorem follows_chunkData (hs : p.state = .s_chunk_data) (hlength : p.content_length ≠ 0) (b : Bool) :
    (chunkData p).Follows { MarkSet.empty with body := b } pend (.chunk (pend + p.content_length)) := by
  show Prog.Follows { MarkSet.empty with body := true } pend _ (if p.content_length - 1 = 0 then _ else _)
  split
  · rename_i hlast
    refine congrArg Phase.chunk ?_
    simp only [if_true]
    omega
  · rename_i hmore
    show State.Told p.state _ _ _ _
    rw [hs]
    refine ⟨hmore, congrArg Phase.chunk ?_⟩
    simp only [if_true]
    omega

/-- The carriage return behind a chunk tells its bytes. -/
theorem follows_chunkDataAlmostDone {b : Bool} (hb : b = false → pend = 0) :
    (chunkDataAlmostDone ch p).Follows { MarkSet.empty with body := b } pend (.chunk pend) := by
  refine follows_strictCheck fun _ => ?_
  cases b with
  | false =>
    rw [hb rfl]
    rfl
  | true =>
    intro size hsize
    obtain rfl : size = pend := hsize rfl
    refine ⟨_, chunk_next (Nat.le_refl _), ?_⟩
    rw [Nat.sub_self]
    rfl

/-- The line feed behind a chunk tells that it is complete. -/
theorem follows_chunkDataDone : (chunkDataDone ch p).Follows .empty 0 (.chunk 0) :=
  follows_strictCheck fun _ => ⟨_, rfl, rfl⟩

/-! ### The work on a byte -/

/-- A byte that begins a message, read once more, follows the phase. -/
theorem follows_reexecute_startsMessage (hs : p.state.startsMessage = true) (h : Told p 0 ph) :
    (reexecute ch p).Follows .empty 0 ph := by
  have hp := h
  unfold Told State.Told at h
  unfold reexecute
  cases hst : p.state with
  | s_dead =>
    rw [hst] at h
    obtain rfl := h
    dsimp only
    split
    · exact hp
    · exact follows_fail (by decide)
  | s_start_req_or_res =>
    rw [hst] at h
    obtain rfl := h
    exact follows_startReqOrRes hp
  | s_start_req =>
    rw [hst] at h
    obtain rfl := h
    exact follows_startReq hp
  | s_start_res =>
    rw [hst] at h
    obtain rfl := h
    exact follows_startRes hp
  | s_res_or_resp_H =>
    rw [hst] at h
    obtain ⟨htrail, rfl⟩ := h
    exact follows_resOrRespH htrail
  | s_req_method =>
    rw [hst] at h
    obtain ⟨htrail, rfl⟩ := h
    exact follows_reqMethod hst htrail
  | s_req_spaces_before_url =>
    rw [hst] at h
    obtain ⟨htrail, rfl⟩ := h
    exact follows_reqSpacesBeforeUrl hst htrail
  | s_req_http_start =>
    rw [hst] at h
    obtain ⟨htrail, rfl⟩ := h
    exact follows_reqHttpStart hst htrail
  | s_req_http_end =>
    rw [hst] at h
    obtain ⟨htrail, rfl⟩ := h
    exact follows_reqHttpEnd htrail
  | s_req_line_almost_done =>
    rw [hst] at h
    obtain ⟨htrail, rfl⟩ := h
    exact follows_reqLineAlmostDone htrail
  | s_res_first_status_code =>
    rw [hst] at h
    obtain ⟨htrail, rfl⟩ := h
    exact follows_resFirstStatusCode hst htrail
  | s_res_status_code =>
    rw [hst] at h
    obtain ⟨htrail, rfl⟩ := h
    exact follows_resStatusCode hst htrail
  | s_res_status_start =>
    rw [hst] at h
    obtain ⟨htrail, rfl⟩ := h
    exact follows_resStatusStart htrail
  | s_res_line_almost_done =>
    rw [hst] at h
    obtain ⟨htrail, rfl⟩ := h
    exact follows_strictCheck fun _ => htrail
  | s_res_http_major | s_res_http_minor | s_req_http_major | s_req_http_minor =>
    rw [hst] at h
    exact follows_versionDigit fun _ => h
  | s_res_http_dot | s_res_http_end | s_req_http_dot =>
    rw [hst] at h
    exact follows_versionChar h
  | s_res_H | s_res_HT | s_res_HTT | s_res_HTTP | s_req_http_H | s_req_http_HT | s_req_http_HTT
  | s_req_http_HTTP | s_req_http_I | s_req_http_IC =>
    rw [hst] at h
    exact follows_expect h
  | _ =>
    rw [hst] at hs
    cases hs

/-- **The work on a byte calls back in order**, in the outer loop. -/
theorem follows_reexecute {loop : Loop} (hc : Consistent p loop set) (hpend : set.body = false → pend = 0)
    (h : Told p pend ph) : (reexecute ch p).Follows set pend ph := by
  have hset := hc.set_eq
  by_cases hstart : p.state.startsMessage = true
  · have hplain : p.state.plain = true := by
      revert hstart
      cases p.state <;> first
        | exact fun _ => rfl
        | exact fun h => by cases h
    have hempty := hc.eq_empty hplain
    obtain rfl : pend = 0 := hpend (by rw [hempty]; rfl)
    rw [hempty]
    exact follows_reexecute_startsMessage hstart h
  have hnone : p.state.holdsBody ≠ true → pend = 0 := fun hs => hpend (hc.not_body hs)
  unfold Told State.Told at h
  unfold reexecute
  cases hst : p.state with
  | s_req_schema | s_req_schema_slash | s_req_schema_slash_slash | s_req_server_start =>
    obtain rfl := hnone (by rw [hst]; nofun)
    rw [hst] at hset h
    rw [hset, hc.not_body (by rw [hst]; nofun)]
    exact follows_reqSchema h.1 h.2
  | s_req_server | s_req_server_with_at | s_req_path | s_req_query_string_start
  | s_req_query_string | s_req_fragment_start | s_req_fragment =>
    obtain rfl := hnone (by rw [hst]; nofun)
    rw [hst] at hset h
    rw [hset, hc.not_body (by rw [hst]; nofun)]
    exact follows_reqUrl h.1 h.2
  | s_res_status =>
    obtain rfl := hnone (by rw [hst]; nofun)
    rw [hst] at hset h
    rw [hset, hc.not_body (by rw [hst]; nofun)]
    exact follows_resStatus hst h.1 h.2
  | s_header_field =>
    obtain rfl := hnone (by rw [hst]; nofun)
    rw [hst] at hset h
    rw [hset, hc.not_body (by rw [hst]; nofun)]
    exact follows_headerField hst h
  | s_header_value =>
    obtain rfl := hnone (by rw [hst]; nofun)
    rw [hst] at hset h
    rw [hset, hc.not_body (by rw [hst]; nofun)]
    exact follows_headerValue hst h
  | s_chunk_data =>
    rw [hst] at h
    obtain ⟨hlength, rfl⟩ := h
    rw [hset, hst]
    exact follows_chunkData hst hlength _
  | s_chunk_data_almost_done =>
    rw [hst] at h
    obtain rfl := h
    rw [hset, hst]
    exact follows_chunkDataAlmostDone hpend
  | s_body_identity =>
    rw [hst] at h
    obtain ⟨hlength, rfl⟩ := h
    rw [hset, hst]
    exact follows_bodyIdentity hst hlength _
  | s_body_identity_eof =>
    rw [hst] at h
    obtain rfl := h
    show State.Told p.state _ _ _ _
    rw [hst]
    rfl
  | s_header_field_start =>
    obtain rfl := hnone (by rw [hst]; nofun)
    rw [hst] at h
    rw [hc.eq_empty (by rw [hst]; rfl)]
    exact follows_headerFieldStart h
  | s_header_value_discard_ws =>
    obtain rfl := hnone (by rw [hst]; nofun)
    rw [hst] at h
    rw [hc.eq_empty (by rw [hst]; rfl)]
    exact follows_headerValueDiscardWs hst h
  | s_header_value_discard_ws_almost_done =>
    obtain rfl := hnone (by rw [hst]; nofun)
    rw [hst] at h
    rw [hc.eq_empty (by rw [hst]; rfl)]
    exact follows_strictCheck fun _ => h
  | s_header_value_discard_lws =>
    obtain rfl := hnone (by rw [hst]; nofun)
    rw [hst] at h
    rw [hc.eq_empty (by rw [hst]; rfl)]
    exact follows_headerValueDiscardLws h
  | s_header_value_lws =>
    obtain rfl := hnone (by rw [hst]; nofun)
    rw [hst] at h
    rw [hc.eq_empty (by rw [hst]; rfl)]
    exact follows_headerValueLws h
  | s_header_almost_done =>
    obtain rfl := hnone (by rw [hst]; nofun)
    rw [hst] at h
    rw [hc.eq_empty (by rw [hst]; rfl)]
    exact follows_headerAlmostDone h
  | s_headers_almost_done =>
    obtain rfl := hnone (by rw [hst]; nofun)
    rw [hst] at h
    rw [hc.eq_empty (by rw [hst]; rfl)]
    exact follows_headersAlmostDone h
  | s_chunk_size_start =>
    obtain rfl := hnone (by rw [hst]; nofun)
    rw [hst] at h
    obtain rfl := h
    rw [hc.eq_empty (by rw [hst]; rfl)]
    exact follows_chunkSizeStart
  | s_chunk_size =>
    obtain rfl := hnone (by rw [hst]; nofun)
    rw [hst] at h
    obtain rfl := h
    rw [hc.eq_empty (by rw [hst]; rfl)]
    exact follows_chunkSize hst
  | s_chunk_parameters =>
    obtain rfl := hnone (by rw [hst]; nofun)
    rw [hst] at h
    obtain rfl := h
    rw [hc.eq_empty (by rw [hst]; rfl)]
    exact follows_chunkParameters hst
  | s_chunk_size_almost_done =>
    obtain rfl := hnone (by rw [hst]; nofun)
    rw [hst] at h
    obtain rfl := h
    rw [hc.eq_empty (by rw [hst]; rfl)]
    exact follows_chunkSizeAlmostDone
  | s_chunk_data_done =>
    obtain rfl := hnone (by rw [hst]; nofun)
    rw [hst] at h
    obtain rfl := h
    rw [hc.eq_empty (by rw [hst]; rfl)]
    exact follows_chunkDataDone
  | s_header_value_start | s_headers_done | s_message_done =>
    rw [hst] at h
    exact h.elim
  | _ =>
    rw [hst] at hstart
    exact absurd rfl hstart

/-- **The work on a byte calls back in order.** -/
theorem follows_byteProg {loop : Loop} (hc : Consistent p loop set) (hpend : set.body = false → pend = 0)
    (h : Told p pend ph) : (byteProg loop ch p).Follows set pend ph := by
  have hset := hc.set_eq
  unfold byteProg
  cases loop with
  | field k =>
    have hst : p.state = .s_header_field := hc.loop
    obtain rfl := hpend (hc.not_body (by rw [hst]; nofun))
    unfold Told State.Told at h
    rw [hst] at hset h
    rw [hset, hc.not_body (by rw [hst]; nofun)]
    exact follows_headerField hst h
  | value k general =>
    have hst : p.state = .s_header_value := hc.loop
    obtain rfl := hpend (hc.not_body (by rw [hst]; nofun))
    unfold Told State.Told at h
    rw [hst] at hset h
    rw [hset, hc.not_body (by rw [hst]; nofun)]
    exact follows_headerValue hst h
  | outer =>
    dsimp only
    split
    · exact follows_countHeaderSize (follows_reexecute (hc.addRead 1) hpend h)
    · exact follows_reexecute hc hpend h

end Follows

end HttpParsing
end Wuchat
