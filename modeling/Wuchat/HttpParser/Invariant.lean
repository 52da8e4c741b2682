/-
# The vendored HTTP parser: marks and states

Between two bytes the marks are those of the state: the mark of the URL is set in the states
of a URL and nowhere else, and so on; the mark of the body may be set while a body is
read (`Consistent`).  The work on every byte keeps this (`keeps_byteProg`): it is shown
for the program of each state, with the marks that are set when the program starts.

A return in the middle of the data has an error, or the parser has come to the end of a
message after which another protocol is spoken (`Stopped`).  `upgrade` is set at the end of
the headers and stays for the body of the message.
-/

import Wuchat.HttpParser.Execute

namespace Wuchat
namespace HttpParsing

open Foundation Http

/-- The marks that are set. -/
structure MarkSet where
  header_field : Bool
  header_value : Bool
  url : Bool
  body : Bool
  status : Bool
  deriving DecidableEq

/-- No mark is set. -/
def MarkSet.empty : MarkSet := ⟨false, false, false, false, false⟩

/-- A mark set or cleared. -/
def MarkSet.put (b : Bool) (set : MarkSet) : Mark → MarkSet
  | .header_field => { set with header_field := b }
  | .header_value => { set with header_value := b }
  | .url => { set with url := b }
  | .body => { set with body := b }
  | .status => { set with status := b }

/-- Whether a mark is set. -/
def MarkSet.has (set : MarkSet) : Mark → Bool
  | .header_field => set.header_field
  | .header_value => set.header_value
  | .url => set.url
  | .body => set.body
  | .status => set.status

/-- The states in which the mark of the body may be set between two bytes. -/
def State.holdsBody : State → Bool
  | s_body_identity | s_body_identity_eof | s_chunk_data | s_chunk_data_almost_done => true
  | _ => false

/-- The states in which no mark is set between two bytes. -/
def State.plain (s : State) : Bool :=
  !s.inUrl && !(s == s_header_field) && !(s == s_header_value) && !(s == s_res_status) && !s.holdsBody

/-- The states of a body, and of header lines when they are those of a trailer. -/
def inBody (p : HttpParser) : Bool :=
  match p.state with
  | .s_chunk_size_start | .s_chunk_size | .s_chunk_parameters | .s_chunk_size_almost_done
  | .s_chunk_data | .s_chunk_data_almost_done | .s_chunk_data_done | .s_body_identity
  | .s_body_identity_eof | .s_message_done | .s_headers_done => true
  | .s_header_field_start | .s_header_field | .s_header_value_discard_ws
  | .s_header_value_discard_ws_almost_done | .s_header_value_discard_lws | .s_header_value_start
  | .s_header_value | .s_header_value_lws | .s_header_almost_done | .s_headers_almost_done =>
    p.flags.trailing
  | _ => false

/-- The parser has come to the end of a message after which another protocol is spoken. -/
def Stopped (p : HttpParser) : Prop :=
  p.upgrade = true ∧ (p.state = .s_start_req ∨ p.state = .s_start_res ∨ p.state = .s_dead)

/-- The loop that runs in a state. -/
def Loop.Fits : Loop → State → Prop
  | outer, _ => True
  | field _, s => s = .s_header_field
  | value _ _, s => s = .s_header_value

/-- **The parser and the marks between two bytes.** -/
structure Consistent (p : HttpParser) (loop : Loop) (set : MarkSet) : Prop where
  ok : p.http_errno = .OK
  url : set.url = p.state.inUrl
  header_field : set.header_field = (p.state == .s_header_field)
  header_value : set.header_value = (p.state == .s_header_value)
  status : set.status = (p.state == .s_res_status)
  body : set.body = true → p.state.holdsBody = true
  loop : loop.Fits p.state
  chunk : p.state = .s_chunk_data → p.content_length ≠ 0
  upgrade : p.upgrade = true → inBody p = true

/-- **Every way through a program ends consistently**, from the marks `set`; a parser in an
upgraded message (`up`) stays in it. -/
def Prog.Keeps (up : Bool) (set : MarkSet) : Prog → Prop
  | .next p loop => Consistent p loop set ∧ (up = true → p.upgrade = true)
  | .exit p _ => (p.http_errno ≠ .OK ∨ Stopped p) ∧ (up = true → p.upgrade = true)
  | .mark m k => k.Keeps up (set.put true m)
  | .data m _ _ p k => (up = true → p.upgrade = true) ∧ k.Keeps up (set.put false m)
  | .notify _ _ p k => (up = true → p.upgrade = true) ∧ k.Keeps up set
  | .headersComplete _ k => ∀ r, (k r).Keeps up set

/-! ### States without marks -/

/-- In a plain state no mark is set. -/
theorem Consistent.eq_empty {p : HttpParser} {loop : Loop} {set : MarkSet} (h : Consistent p loop set)
    (hs : p.state.plain = true) : set = .empty := by
  have h₁ := h.url
  have h₂ := h.header_field
  have h₃ := h.header_value
  have h₄ := h.status
  have h₅ := h.body
  cases set
  simp only [State.plain, Bool.and_eq_true, Bool.not_eq_true'] at hs
  simp_all [MarkSet.empty]

/-- A plain state without marks is consistent. -/
theorem consistent_plain {p : HttpParser} (hs : p.state.plain = true) (hok : p.http_errno = .OK)
    (hup : p.upgrade = true → inBody p = true) : Consistent p .outer .empty := by
  have hs' := hs
  simp only [State.plain, Bool.and_eq_true, Bool.not_eq_true'] at hs
  obtain ⟨⟨⟨⟨h₁, h₂⟩, h₃⟩, h₄⟩, h₅⟩ := hs
  refine ⟨hok, h₁.symm, h₂.symm, h₃.symm, h₄.symm, nofun, trivial, ?_, hup⟩
  intro hc
  rw [hc] at h₅
  cases h₅

variable {p : HttpParser} {up : Bool} {ch : UInt8}

/-- A failure ends every message. -/
theorem keeps_fail (e : HttpErrno) (set : MarkSet) (he : e ≠ .OK) (h : up = true → p.upgrade = true) :
    (fail e p).Keeps up set := ⟨.inl he, h⟩

/-- A step to a plain state keeps the invariant. -/
theorem keeps_goto {s : State} (hs : s.plain = true) (hok : p.http_errno = .OK)
    (h : up = true → p.upgrade = true) (hup : p.upgrade = true → inBody { p with state := s } = true) :
    (goto s p).Keeps up .empty := ⟨consistent_plain hs hok hup, h⟩

/-- A strict check fails, or its program goes on. -/
theorem keeps_strictCheck {cond : Prop} [Decidable cond] {k : Prog} {set : MarkSet}
    (h : up = true → p.upgrade = true) (hk : ¬cond → k.Keeps up set) :
    (strictCheck cond p k).Keeps up set := by
  unfold strictCheck
  split
  · exact keeps_fail _ _ (by decide) h
  · exact hk ‹_›

/-- The bytes of the headers are too many, or the program goes on with the count. -/
theorem keeps_countHeaderSize {v : Nat} {k : HttpParser → Prog} {set : MarkSet}
    (h : up = true → p.upgrade = true) (hk : (k (addRead v p)).Keeps up set) :
    (countHeaderSize v p k).Keeps up set := by
  unfold countHeaderSize
  split
  · exact keeps_fail _ _ (by decide) h
  · exact hk

/-! ### States with marks -/

/-- Where the body is read nothing else is. -/
theorem State.holdsBody_apart {s : State} (h : s.holdsBody = true) :
    s.inUrl = false ∧ (s == s_header_field) = false ∧ (s == s_header_value) = false ∧
      (s == s_res_status) = false := by
  cases s <;> first
    | exact ⟨rfl, rfl, rfl, rfl⟩
    | cases h

/-- Where the URL is read nothing else is. -/
theorem State.inUrl_apart {s : State} (h : s.inUrl = true) :
    (s == s_header_field) = false ∧ (s == s_header_value) = false ∧ (s == s_res_status) = false ∧
      s ≠ s_chunk_data := by
  cases s <;> first
    | exact ⟨rfl, rfl, rfl, by decide⟩
    | cases h

/-- The states of a body are after the headers. -/
theorem inBody_of_holdsBody (h : p.state.holdsBody = true) : inBody p = true := by
  unfold inBody
  cases hst : p.state <;> first
    | rfl
    | rw [hst] at h; cases h

/-- Whether a parser is in a body is read off its state. -/
theorem inBody_eq {s : State} (hs : p.state = s) : inBody p = inBody { p with state := s } := by
  subst hs
  rfl

/-- A state that may hold a part of the body. -/
theorem consistent_body (hs : p.state.holdsBody = true) (hok : p.http_errno = .OK)
    (hchunk : p.state = .s_chunk_data → p.content_length ≠ 0) (b : Bool) :
    Consistent p .outer { MarkSet.empty with body := b } := by
  obtain ⟨hurl, hfield, hvalue, hstatus⟩ := State.holdsBody_apart hs
  exact ⟨hok, hurl.symm, hfield.symm, hvalue.symm, hstatus.symm, fun _ => hs, trivial, hchunk,
    fun _ => inBody_of_holdsBody hs⟩

/-- A state in a URL. -/
theorem consistent_url (hs : p.state.inUrl = true) (hok : p.http_errno = .OK) (hup : p.upgrade ≠ true) :
    Consistent p .outer { MarkSet.empty with url := true } := by
  obtain ⟨hfield, hvalue, hstatus, hchunk⟩ := State.inUrl_apart hs
  exact ⟨hok, hs.symm, hfield.symm, hvalue.symm, hstatus.symm, nofun, trivial, fun hc => (hchunk hc).elim,
    fun h => (hup h).elim⟩

/-- The state of a reason phrase. -/
theorem consistent_status (hs : p.state = .s_res_status) (hok : p.http_errno = .OK) (hup : p.upgrade ≠ true) :
    Consistent p .outer { MarkSet.empty with status := true } := by
  refine ⟨hok, ?_, ?_, ?_, ?_, nofun, trivial, fun hc => ?_, fun h => (hup h).elim⟩
  · rw [hs]; rfl
  · rw [hs]; rfl
  · rw [hs]; rfl
  · rw [hs]; rfl
  · rw [hs] at hc
    cases hc

/-- The state of a header name. -/
theorem consistent_field {loop : Loop} (hs : p.state = .s_header_field) (hloop : loop.Fits .s_header_field)
    (hok : p.http_errno = .OK) (hup : p.upgrade = true → p.flags.trailing = true) :
    Consistent p loop { MarkSet.empty with header_field := true } := by
  refine ⟨hok, ?_, ?_, ?_, ?_, nofun, by rw [hs]; exact hloop, fun hc => ?_, fun h => ?_⟩
  · rw [hs]; rfl
  · rw [hs]; rfl
  · rw [hs]; rfl
  · rw [hs]; rfl
  · rw [hs] at hc
    cases hc
  · rw [inBody_eq hs]
    exact hup h

/-- The state of a header value. -/
theorem consistent_value {loop : Loop} (hs : p.state = .s_header_value) (hloop : loop.Fits .s_header_value)
    (hok : p.http_errno = .OK) (hup : p.upgrade = true → p.flags.trailing = true) :
    Consistent p loop { MarkSet.empty with header_value := true } := by
  refine ⟨hok, ?_, ?_, ?_, ?_, nofun, by rw [hs]; exact hloop, fun hc => ?_, fun h => ?_⟩
  · rw [hs]; rfl
  · rw [hs]; rfl
  · rw [hs]; rfl
  · rw [hs]; rfl
  · rw [hs] at hc
    cases hc
  · rw [inBody_eq hs]
    exact hup h

/-- The start of a body. -/
theorem keeps_goto_body {s : State} (hs : s.holdsBody = true) (hok : p.http_errno = .OK)
    (h : up = true → p.upgrade = true) (hchunk : s = .s_chunk_data → p.content_length ≠ 0) :
    (goto s p).Keeps up .empty :=
  ⟨consistent_body (p := { p with state := s }) hs hok hchunk false, h⟩

/-! ### The end of a message -/

/-- The parser behind a message waits for the next one, or is dead. -/
theorem newMessage_cases (p : HttpParser) :
    newMessage p = .s_start_req ∨ newMessage p = .s_start_res ∨ newMessage p = .s_dead := by
  unfold newMessage startState
  split
  · split
    · exact .inl rfl
    · exact .inr (.inl rfl)
  · exact .inr (.inr rfl)

/-- The end of an upgraded message. -/
theorem keeps_messageComplete_exit (hup : p.upgrade = true) :
    (messageComplete p fun p => .exit p 1).Keeps up .empty :=
  ⟨fun _ => hup, .inr ⟨hup, newMessage_cases p⟩, fun _ => hup⟩

/-- The end of any other message. -/
theorem keeps_messageComplete_next (hok : p.http_errno = .OK) (h : up = true → p.upgrade = true)
    (hup : p.upgrade ≠ true) : (messageComplete p fun p => .next p .outer).Keeps up .empty := by
  refine ⟨h, consistent_plain ?_ hok fun h' => (hup h').elim, h⟩
  rcases newMessage_cases p with hs | hs | hs <;> exact congrArg State.plain hs

/-- The end of a message keeps the invariant, whether the parser stops or goes on. -/
theorem keeps_messageDone (hok : p.http_errno = .OK) (h : up = true → p.upgrade = true) :
    (messageDone p).Keeps up .empty := by
  by_cases hup : p.upgrade = true
  · have hexit : (messageComplete p fun p => .exit p 1).Keeps up .empty :=
      keeps_messageComplete_exit hup
    simpa [messageDone, messageComplete, hup] using hexit
  · have hnext := keeps_messageComplete_next hok h hup
    simpa [messageDone, messageComplete, hup] using hnext

/-- The end of the headers keeps the invariant, whatever body is announced. -/
theorem keeps_headersDone (hok : p.http_errno = .OK) (h : up = true → p.upgrade = true) :
    (headersDone ch p).Keeps up .empty := by
  refine keeps_strictCheck h fun _ => ?_
  dsimp only
  split
  · exact keeps_messageComplete_exit (by rename_i hc; exact hc.1)
  rename_i hexit
  split
  · exact keeps_messageComplete_next hok h fun hup => hexit ⟨hup, .inr (.inl ‹_›)⟩
  split
  · exact keeps_goto rfl hok h fun _ => rfl
  rename_i hchunked
  split
  · refine keeps_messageComplete_next hok h fun hup => hexit ⟨hup, .inr (.inr ?_)⟩
    simp_all
  split
  · exact keeps_goto_body rfl hok h (by simp)
  rename_i hmax
  split
  · refine keeps_messageComplete_next hok h fun hup => hexit ⟨hup, .inr (.inr ?_)⟩
    simp_all
  · exact keeps_goto_body rfl hok h (by simp)

/-- So does the answer of `on_headers_complete`, whatever it is. -/
theorem keeps_headersCompleted {r : Int} (hok : p.http_errno = .OK) (hup : up ≠ true) :
    (headersCompleted ch p r).Keeps up .empty := by
  have h : ∀ q : HttpParser, up = true → q.upgrade = true := fun _ hu => (hup hu).elim
  unfold headersCompleted
  split
  · exact keeps_headersDone hok (h _)
  split
  · refine keeps_headersDone ?_ (h _)
    exact hok
  split
  · refine keeps_headersDone ?_ (h _)
    exact hok
  · exact keeps_fail _ _ (by decide) (h _)

/-- So does the line feed of the empty line, of the headers and of a trailer. -/
theorem keeps_headersAlmostDone (hok : p.http_errno = .OK) (h : up = true → p.upgrade = true)
    (htrail : p.upgrade = true → p.flags.trailing = true) : (headersAlmostDone ch p).Keeps up .empty := by
  refine keeps_strictCheck h fun _ => ?_
  split
  · exact ⟨h, keeps_messageDone hok h⟩
  rename_i hnot
  -- outside a trailer the message is not upgraded yet
  have hup : up ≠ true := fun hu => hnot (htrail (h hu))
  split
  · exact keeps_fail _ _ (by decide) h
  · intro r
    refine keeps_headersCompleted ?_ hup
    exact hok

/-! ### Header lines -/

/-- The end of a value leaves the trailer flag. -/
theorem flagOf_trailing (s : HeaderState) (flags : Flags) : (flagOf s flags).trailing = flags.trailing := by
  unfold flagOf
  split <;> rfl

/-- What the characters of names and values leave as it is. -/
structure SameLine (p q : HttpParser) : Prop where
  state : q.state = p.state
  http_errno : q.http_errno = p.http_errno
  upgrade : q.upgrade = p.upgrade
  trailing : q.flags.trailing = p.flags.trailing

/-- Nothing has changed. -/
theorem SameLine.rfl : SameLine p p := ⟨.refl _, .refl _, .refl _, .refl _⟩

/-- A character of a name stays in the line. -/
theorem sameLine_fieldChar (ch c : UInt8) (p : HttpParser) : SameLine p (fieldChar ch c p) := by
  unfold fieldChar
  split <;> first | exact ⟨.refl _, .refl _, .refl _, .refl _⟩ | skip
  all_goals split <;> exact ⟨.refl _, .refl _, .refl _, .refl _⟩

/-- So does a digit of a length. -/
theorem sameLine_contentLengthNum {q : HttpParser} (hq : contentLengthNum ch p = .ok q) : SameLine p q := by
  unfold contentLengthNum at hq
  repeat' split at hq
  all_goals cases hq
  all_goals exact ⟨.refl _, .refl _, .refl _, .refl _⟩

/-- So does a character of a value. -/
theorem sameLine_valueChar {q : HttpParser} (hq : valueChar ch p = .ok q) : SameLine p q := by
  unfold valueChar at hq
  dsimp only at hq
  split at hq
  case h_4 =>
    split at hq
    · cases hq
      exact .rfl
    · obtain ⟨h₁, h₂, h₃, h₄⟩ := sameLine_contentLengthNum hq
      exact ⟨h₁, h₂, h₃, h₄⟩
  case h_5 => exact sameLine_contentLengthNum hq
  all_goals
    repeat' split at hq
    all_goals cases hq
    all_goals first
      | exact ⟨.refl _, .refl _, .refl _, .refl _⟩
      | exact ⟨.refl _, .refl _, .refl _, flagOf_trailing _ _⟩

/-- A length is refused with an error. -/
theorem errno_contentLengthNum {e : HttpErrno} (he : contentLengthNum ch p = .error e) : e ≠ .OK := by
  unfold contentLengthNum at he
  repeat' split at he
  all_goals cases he
  all_goals decide

/-- A character of a value is refused with an error. -/
theorem errno_valueChar {e : HttpErrno} (he : valueChar ch p = .error e) : e ≠ .OK := by
  unfold valueChar at he
  dsimp only at he
  split at he
  case h_4 =>
    split at he
    · cases he
    · exact errno_contentLengthNum he
  case h_5 => exact errno_contentLengthNum he
  all_goals
    repeat' split at he
    all_goals cases he
  all_goals decide

section Headers

variable (hok : p.http_errno = .OK) (h : up = true → p.upgrade = true)
  (htrail : p.upgrade = true → p.flags.trailing = true)
include hok h htrail

/-- The first byte of a header line keeps the invariant. -/
theorem keeps_headerFieldStart : (headerFieldStart ch p).Keeps up .empty := by
  unfold headerFieldStart
  split
  · exact keeps_goto rfl hok h htrail
  split
  · refine keeps_headersAlmostDone ?_ h htrail
    exact hok
  split
  · exact keeps_fail _ _ (by decide) h
  · refine ⟨consistent_field rfl trivial ?_ htrail, h⟩
    exact hok

/-- The first byte of a value keeps it. -/
theorem keeps_headerValueStart : (headerValueStart ch p).Keeps up .empty := by
  have hnext : ∀ q : HttpParser, q.state = .s_header_value → q.http_errno = .OK → q.upgrade = p.upgrade →
      q.flags.trailing = p.flags.trailing →
      (Prog.next q .outer).Keeps up { MarkSet.empty with header_value := true } := by
    intro q hs hq hu ht
    exact ⟨consistent_value hs trivial hq (by rw [hu, ht]; exact htrail), by rw [hu]; exact h⟩
  unfold headerValueStart
  dsimp only [Prog.Keeps]
  split
  · exact hnext _ rfl hok rfl rfl
  · exact hnext _ rfl hok rfl rfl
  · split
    · exact keeps_fail _ _ (by decide) h
    split
    · exact keeps_fail _ _ (by decide) h
    · exact hnext _ rfl hok rfl rfl
  · exact hnext _ rfl hok rfl rfl
  · exact hnext _ rfl hok rfl rfl
  · exact hnext _ rfl hok rfl rfl
  · exact hnext _ rfl hok rfl rfl

/-- The blanks before a value keep it. -/
theorem keeps_headerValueDiscardWs (hs : p.state = .s_header_value_discard_ws) :
    (headerValueDiscardWs ch p).Keeps up .empty := by
  unfold headerValueDiscardWs
  split
  · exact ⟨consistent_plain (by rw [hs]; rfl) hok (by rw [inBody_eq hs]; exact htrail), h⟩
  split
  · exact keeps_goto rfl hok h htrail
  split
  · exact keeps_goto rfl hok h htrail
  · exact keeps_headerValueStart hok h htrail

/-- The line feed of a header line keeps it. -/
theorem keeps_headerAlmostDone : (headerAlmostDone ch p).Keeps up .empty := by
  unfold headerAlmostDone
  split
  · exact keeps_fail _ _ (by decide) h
  · exact keeps_goto rfl hok h htrail

/-- The byte behind a header line keeps it: a folded line goes on with the value. -/
theorem keeps_headerValueLws : (headerValueLws ch p).Keeps up .empty := by
  unfold headerValueLws
  split
  · refine keeps_headerValueStart ?_ h htrail
    exact hok
  · refine keeps_headerFieldStart ?_ h ?_
    · exact hok
    · exact fun hup => (flagOf_trailing _ _).trans (htrail hup)

/-- So does the byte behind an empty value. -/
theorem keeps_headerValueDiscardLws : (headerValueDiscardLws ch p).Keeps up .empty := by
  unfold headerValueDiscardLws
  split
  · exact keeps_goto rfl hok h htrail
  split
  · exact keeps_fail _ _ (by decide) h
  · refine ⟨h, keeps_headerFieldStart ?_ h ?_⟩
    · exact hok
    · exact fun hup => (flagOf_trailing _ _).trans (htrail hup)

/-- The bytes of a name keep it, with the name's mark set. -/
theorem keeps_headerField {k : Nat} (hs : p.state = .s_header_field) :
    (headerField k ch p).Keeps up { MarkSet.empty with header_field := true } := by
  unfold headerField
  split
  · rename_i c _
    obtain ⟨h₁, h₂, h₃, h₄⟩ := sameLine_fieldChar ch c p
    refine ⟨consistent_field (h₁.trans hs) (Eq.refl _) (h₂.trans hok) ?_, ?_⟩
    · rw [h₃, h₄]; exact htrail
    · rw [h₃]; exact h
  · refine keeps_countHeaderSize h ?_
    split
    · refine ⟨h, consistent_plain rfl ?_ htrail, h⟩
      exact hok
    · exact keeps_fail _ _ (by decide) h

/-- The bytes of a value keep it, with the value's mark set. -/
theorem keeps_headerValue {k general : Nat} (hs : p.state = .s_header_value) :
    (headerValue k general ch p).Keeps up { MarkSet.empty with header_value := true } := by
  unfold headerValue
  split
  · exact ⟨consistent_value hs (Eq.refl _) hok htrail, h⟩
  split
  · refine ⟨h, keeps_countHeaderSize h ⟨consistent_plain rfl ?_ htrail, h⟩⟩
    exact hok
  split
  · refine keeps_countHeaderSize h ⟨h, keeps_headerAlmostDone ?_ h htrail⟩
    exact hok
  split
  · exact keeps_fail _ _ (by decide) h
  split
  · exact keeps_fail _ _ (errno_valueChar ‹_›) h
  · obtain ⟨h₁, h₂, h₃, h₄⟩ := sameLine_valueChar ‹_›
    refine ⟨consistent_value (h₁.trans hs) (Eq.refl _) (h₂.trans hok) ?_, ?_⟩
    · rw [h₃, h₄]; exact htrail
    · rw [h₃]; exact h

end Headers

/-! ### First lines -/

/-- A URL goes on in a state of a URL, or is refused. -/
theorem parse_url_char_inUrl (s : State) (ch : UInt8) :
    (parse_url_char s ch).inUrl = true ∨ parse_url_char s ch = .s_dead := by
  unfold parse_url_char serverChar
  repeat' split
  all_goals first | exact .inl rfl | exact .inr rfl

section FirstLine

variable (hok : p.http_errno = .OK) (hup : p.upgrade ≠ true) (hu : up ≠ true)
include hok hup hu

/-- Outside a body the message is not upgraded, and a plain state is enough. -/
theorem keeps_next_plain (hs : p.state.plain = true) : (Prog.next p .outer).Keeps up .empty :=
  ⟨consistent_plain hs hok fun h => (hup h).elim, fun h => (hu h).elim⟩

/-- Outside a body a step to a plain state needs nothing else. -/
theorem keeps_goto_plain {s : State} (hs : s.plain = true) : (goto s p).Keeps up .empty :=
  keeps_goto hs hok (fun h => (hu h).elim) fun h => (hup h).elim

omit hok hup in
/-- Outside a body a failure needs no more than its error. -/
theorem keeps_fail_plain {e : HttpErrno} {set : MarkSet} (he : e ≠ .OK) : (fail e p).Keeps up set :=
  keeps_fail e set he fun h => (hu h).elim

/-- A digit of a version is taken or refused. -/
theorem keeps_versionDigit {k : Nat → HttpParser} (hk : ∀ n, (k n).state.plain = true)
    (hkok : ∀ n, (k n).http_errno = p.http_errno) (hkup : ∀ n, (k n).upgrade = p.upgrade) :
    (versionDigit ch p k).Keeps up .empty := by
  unfold versionDigit
  split
  · exact keeps_fail_plain hu (by decide)
  · exact keeps_next_plain (by rw [hkok]; exact hok) (by rw [hkup]; exact hup) hu (hk _)

/-- A character of `HTTP/1.1` is as it must be or refused. -/
theorem keeps_versionChar {c : Char} {s : State} (hs : s.plain = true) :
    (versionChar c s ch p).Keeps up .empty := by
  unfold versionChar
  split
  · exact keeps_fail_plain hu (by decide)
  · exact keeps_goto_plain hok hup hu hs

/-- The first byte of a request keeps the invariant. -/
theorem keeps_startReq (hs : p.state.plain = true) : (startReq ch p).Keeps up .empty := by
  unfold startReq
  split
  · exact keeps_next_plain hok hup hu hs
  dsimp only
  split
  · exact keeps_fail_plain hu (by decide)
  split
  · exact keeps_fail_plain hu (by decide)
  · refine ⟨fun h => (hu h).elim, ?_⟩
    refine keeps_next_plain ?_ ?_ hu rfl
    · exact hok
    · exact hup

/-- The bytes of a method keep it. -/
theorem keeps_reqMethod (hs : p.state = .s_req_method) : (reqMethod ch p).Keeps up .empty := by
  have hnext : ∀ q : HttpParser, q.state = p.state → q.http_errno = p.http_errno → q.upgrade = p.upgrade →
      (Prog.next q .outer).Keeps up .empty := by
    intro q h₁ h₂ h₃
    exact keeps_next_plain (h₂.trans hok) (by rw [h₃]; exact hup) hu (by rw [h₁, hs]; rfl)
  unfold reqMethod
  split
  · exact keeps_fail_plain hu (by decide)
  dsimp only
  split
  · refine keeps_goto_plain ?_ ?_ hu rfl
    · exact hok
    · exact hup
  split
  · exact hnext _ rfl rfl rfl
  split
  · split
    · exact keeps_fail_plain hu (by decide)
    · exact hnext _ rfl rfl rfl
  · exact keeps_fail_plain hu (by decide)

/-- A byte of the URL keeps it, with the URL's mark set. -/
theorem keeps_urlChar {s : State} : (urlChar s ch p).Keeps up { MarkSet.empty with url := true } := by
  unfold urlChar
  dsimp only
  split
  · exact keeps_fail_plain hu (by decide)
  · rename_i hne
    refine ⟨consistent_url ((parse_url_char_inUrl s ch).resolve_right hne) ?_ ?_, fun h => (hu h).elim⟩
    · exact hok
    · exact hup

/-- The blanks before the URL keep it. -/
theorem keeps_reqSpacesBeforeUrl (hs : p.state = .s_req_spaces_before_url) :
    (reqSpacesBeforeUrl ch p).Keeps up .empty := by
  unfold reqSpacesBeforeUrl
  split
  · exact keeps_next_plain hok hup hu (by rw [hs]; rfl)
  · exact keeps_urlChar hok hup hu

/-- The bytes of a scheme keep it. -/
theorem keeps_reqSchema : (reqSchema ch p).Keeps up { MarkSet.empty with url := true } := by
  unfold reqSchema
  split
  · exact keeps_fail_plain hu (by decide)
  · exact keeps_urlChar hok hup hu

/-- The bytes of the URL and its end keep it. -/
theorem keeps_reqUrl : (reqUrl ch p).Keeps up { MarkSet.empty with url := true } := by
  unfold reqUrl
  split
  · refine ⟨fun h => (hu h).elim, ?_⟩
    refine keeps_next_plain ?_ ?_ hu rfl
    · exact hok
    · exact hup
  split
  · refine ⟨fun h => (hu h).elim, ?_⟩
    refine keeps_next_plain ?_ ?_ hu ?_
    · exact hok
    · exact hup
    · dsimp only
      split <;> rfl
  · exact keeps_urlChar hok hup hu

/-- The blanks before the version keep it. -/
theorem keeps_reqHttpStart (hs : p.state = .s_req_http_start) : (reqHttpStart ch p).Keeps up .empty := by
  unfold reqHttpStart
  split
  · exact keeps_next_plain hok hup hu (by rw [hs]; rfl)
  split
  · exact keeps_goto_plain hok hup hu rfl
  split
  · exact keeps_goto_plain hok hup hu rfl
  · exact keeps_fail_plain hu (by decide)

/-- The end of the request line keeps it. -/
theorem keeps_reqHttpEnd : (reqHttpEnd ch p).Keeps up .empty := by
  unfold reqHttpEnd
  split
  · exact keeps_goto_plain hok hup hu rfl
  split
  · exact keeps_goto_plain hok hup hu rfl
  · exact keeps_fail_plain hu (by decide)

/-- So does the line feed behind it. -/
theorem keeps_reqLineAlmostDone : (reqLineAlmostDone ch p).Keeps up .empty := by
  unfold reqLineAlmostDone
  split
  · exact keeps_fail_plain hu (by decide)
  · exact keeps_goto_plain hok hup hu rfl

/-- The first byte of a message of either kind keeps it. -/
theorem keeps_startReqOrRes (hs : p.state.plain = true) : (startReqOrRes ch p).Keeps up .empty := by
  unfold startReqOrRes
  split
  · exact keeps_next_plain hok hup hu hs
  dsimp only
  split
  · refine ⟨fun h => (hu h).elim, ?_⟩
    refine keeps_next_plain ?_ ?_ hu rfl
    · exact hok
    · exact hup
  · refine keeps_startReq ?_ ?_ hu rfl
    · exact hok
    · exact hup

/-- So does the second one, which tells the kind. -/
theorem keeps_resOrRespH : (resOrRespH ch p).Keeps up .empty := by
  unfold resOrRespH
  split
  · refine keeps_goto_plain ?_ ?_ hu rfl
    · exact hok
    · exact hup
  split
  · exact keeps_fail_plain hu (by decide)
  · refine keeps_goto_plain ?_ ?_ hu rfl
    · exact hok
    · exact hup

/-- The first byte of a response keeps it. -/
theorem keeps_startRes (hs : p.state.plain = true) : (startRes ch p).Keeps up .empty := by
  unfold startRes
  split
  · exact keeps_next_plain hok hup hu hs
  dsimp only
  split
  · refine ⟨fun h => (hu h).elim, ?_⟩
    refine keeps_next_plain ?_ ?_ hu rfl
    · exact hok
    · exact hup
  · exact keeps_fail_plain hu (by decide)

/-- The first digit of a status keeps it. -/
theorem keeps_resFirstStatusCode (hs : p.state.plain = true) :
    (resFirstStatusCode ch p).Keeps up .empty := by
  unfold resFirstStatusCode
  split
  · refine keeps_goto_plain ?_ ?_ hu rfl
    · exact hok
    · exact hup
  split
  · exact keeps_next_plain hok hup hu hs
  · exact keeps_fail_plain hu (by decide)

/-- The bytes of a reason keep it, with the reason's mark set. -/
theorem keeps_resStatus (hs : p.state = .s_res_status) :
    (resStatus ch p).Keeps up { MarkSet.empty with status := true } := by
  unfold resStatus
  split
  · refine ⟨fun h => (hu h).elim, ?_⟩
    refine keeps_next_plain ?_ ?_ hu rfl
    · exact hok
    · exact hup
  split
  · refine ⟨fun h => (hu h).elim, ?_⟩
    refine keeps_next_plain ?_ ?_ hu rfl
    · exact hok
    · exact hup
  · exact ⟨consistent_status hs hok hup, fun h => (hu h).elim⟩

/-- The first byte of a reason keeps it. -/
theorem keeps_resStatusStart : (resStatusStart ch p).Keeps up .empty := by
  show Prog.Keeps up { MarkSet.empty with status := true } (if ch = CR ∨ ch = LF then _ else _)
  split
  · refine keeps_resStatus ?_ ?_ hu rfl
    · exact hok
    · exact hup
  · refine ⟨consistent_status rfl ?_ ?_, fun h => (hu h).elim⟩
    · exact hok
    · exact hup

/-- The digits of a status keep it. -/
theorem keeps_resStatusCode (hs : p.state.plain = true) : (resStatusCode ch p).Keeps up .empty := by
  unfold resStatusCode
  split
  · dsimp only
    split
    · exact keeps_fail_plain hu (by decide)
    · refine keeps_next_plain ?_ ?_ hu hs
      · exact hok
      · exact hup
  split
  · exact keeps_goto_plain hok hup hu rfl
  split
  · refine keeps_resStatusStart ?_ ?_ hu
    · exact hok
    · exact hup
  · exact keeps_fail_plain hu (by decide)

end FirstLine

/-! ### Bodies -/

section Body

variable (hok : p.http_errno = .OK) (h : up = true → p.upgrade = true)
include hok h

/-- The bytes of a body of known length keep it. -/
theorem keeps_bodyIdentity (hs : p.state = .s_body_identity) (b : Bool) :
    (bodyIdentity p).Keeps up { MarkSet.empty with body := b } := by
  show Prog.Keeps up { MarkSet.empty with body := true } (if _ then _ else _)
  split
  · refine ⟨h, keeps_messageDone ?_ h⟩
    exact hok
  · refine ⟨consistent_body ?_ ?_ ?_ true, h⟩
    · exact congrArg State.holdsBody hs
    · exact hok
    · simp [hs]

/-- The first digit of a chunk's size keeps it. -/
theorem keeps_chunkSizeStart : (chunkSizeStart ch p).Keeps up .empty := by
  unfold chunkSizeStart
  split
  · exact keeps_fail _ _ (by decide) h
  · refine keeps_goto rfl ?_ h fun _ => rfl
    exact hok

/-- The digits of a chunk's size keep it. -/
theorem keeps_chunkSize (hs : p.state = .s_chunk_size) : (chunkSize ch p).Keeps up .empty := by
  unfold chunkSize
  split
  · exact keeps_goto rfl hok h fun _ => rfl
  split
  · split
    · exact keeps_goto rfl hok h fun _ => rfl
    · exact keeps_fail _ _ (by decide) h
  split
  · exact keeps_fail _ _ (by decide) h
  · refine ⟨consistent_plain ?_ ?_ fun _ => ?_, h⟩
    · exact congrArg State.plain hs
    · exact hok
    · exact (inBody_eq hs).trans rfl

/-- The parameters of a chunk keep it. -/
theorem keeps_chunkParameters (hs : p.state = .s_chunk_parameters) :
    (chunkParameters ch p).Keeps up .empty := by
  unfold chunkParameters
  split
  · exact keeps_goto rfl hok h fun _ => rfl
  · refine ⟨consistent_plain ?_ hok fun _ => ?_, h⟩
    · exact congrArg State.plain hs
    · exact (inBody_eq hs).trans rfl

/-- The line feed behind a chunk's size keeps it; behind the size 0 a trailer begins. -/
theorem keeps_chunkSizeAlmostDone : (chunkSizeAlmostDone ch p).Keeps up .empty := by
  refine keeps_strictCheck h fun _ => ?_
  dsimp only
  split
  · refine ⟨h, consistent_plain rfl ?_ fun _ => rfl, h⟩
    exact hok
  · refine ⟨h, consistent_body rfl ?_ (fun _ => ‹_›) false, h⟩
    exact hok

/-- The bytes of a chunk keep it. -/
theorem keeps_chunkData (hs : p.state = .s_chunk_data) (b : Bool) :
    (chunkData p).Keeps up { MarkSet.empty with body := b } := by
  show Prog.Keeps up { MarkSet.empty with body := true } (if _ then _ else _)
  split
  · refine ⟨consistent_body rfl ?_ (by simp) true, h⟩
    exact hok
  · refine ⟨consistent_body ?_ ?_ (fun _ => ‹_›) true, h⟩
    · exact congrArg State.holdsBody hs
    · exact hok

/-- So does the carriage return behind a chunk. -/
theorem keeps_chunkDataAlmostDone (b : Bool) :
    (chunkDataAlmostDone ch p).Keeps up { MarkSet.empty with body := b } := by
  refine keeps_strictCheck h fun _ => ⟨h, consistent_plain rfl ?_ fun _ => rfl, h⟩
  exact hok

/-- So does the line feed behind it. -/
theorem keeps_chunkDataDone : (chunkDataDone ch p).Keeps up .empty := by
  refine keeps_strictCheck h fun _ => ⟨h, consistent_plain rfl ?_ fun _ => rfl, h⟩
  exact hok

end Body

/-! ### The work on a byte -/

/-- The marks of a consistent state, written out. -/
theorem Consistent.set_eq {loop : Loop} {set : MarkSet} (h : Consistent p loop set) :
    set = ⟨p.state == .s_header_field, p.state == .s_header_value, p.state.inUrl, set.body,
      p.state == .s_res_status⟩ := by
  obtain ⟨-, h₁, h₂, h₃, h₄, -, -, -, -⟩ := h
  cases set
  simp_all

/-- Outside the states of a body only the marks of the state are set. -/
theorem Consistent.not_body {loop : Loop} {set : MarkSet} (h : Consistent p loop set)
    (hs : p.state.holdsBody ≠ true) : set.body = false :=
  Bool.eq_false_iff.mpr fun hb => hs (h.body hb)

/-- The states of the first line, without marks. -/
def State.startsMessage : State → Bool
  | s_dead | s_start_req_or_res | s_res_or_resp_H | s_start_res | s_res_H | s_res_HT | s_res_HTT
  | s_res_HTTP | s_res_http_major | s_res_http_dot | s_res_http_minor | s_res_http_end
  | s_res_first_status_code | s_res_status_code | s_res_status_start | s_res_line_almost_done
  | s_start_req | s_req_method | s_req_spaces_before_url | s_req_http_start | s_req_http_H
  | s_req_http_HT | s_req_http_HTT | s_req_http_HTTP | s_req_http_I | s_req_http_IC
  | s_req_http_major | s_req_http_dot | s_req_http_minor | s_req_http_end
  | s_req_line_almost_done => true
  | _ => false

/-- A byte that begins a message, read once more, keeps the invariant. -/
theorem keeps_reexecute_startsMessage (hok : p.http_errno = .OK) (hup : p.upgrade ≠ true)
    (hs : p.state.startsMessage = true) : (reexecute ch p).Keeps p.upgrade .empty := by
  unfold reexecute
  cases hst : p.state with
  | s_dead =>
    dsimp only
    split
    · exact keeps_next_plain hok hup hup (by rw [hst]; rfl)
    · exact keeps_fail_plain hup (by decide)
  | s_start_req_or_res => exact keeps_startReqOrRes hok hup hup (by rw [hst]; rfl)
  | s_res_or_resp_H => exact keeps_resOrRespH hok hup hup
  | s_start_res => exact keeps_startRes hok hup hup (by rw [hst]; rfl)
  | s_res_http_major | s_res_http_minor | s_req_http_major | s_req_http_minor =>
    exact keeps_versionDigit hok hup hup (fun _ => rfl) (fun _ => rfl) (fun _ => rfl)
  | s_res_http_dot | s_res_http_end | s_req_http_dot => exact keeps_versionChar hok hup hup rfl
  | s_res_first_status_code => exact keeps_resFirstStatusCode hok hup hup (by rw [hst]; rfl)
  | s_res_status_code => exact keeps_resStatusCode hok hup hup (by rw [hst]; rfl)
  | s_res_status_start => exact keeps_resStatusStart hok hup hup
  | s_start_req => exact keeps_startReq hok hup hup (by rw [hst]; rfl)
  | s_req_method => exact keeps_reqMethod hok hup hup hst
  | s_req_spaces_before_url => exact keeps_reqSpacesBeforeUrl hok hup hup hst
  | s_req_http_start => exact keeps_reqHttpStart hok hup hup hst
  | s_req_http_end => exact keeps_reqHttpEnd hok hup hup
  | s_req_line_almost_done => exact keeps_reqLineAlmostDone hok hup hup
  | s_res_H | s_res_HT | s_res_HTT | s_res_HTTP | s_res_line_almost_done | s_req_http_H
  | s_req_http_HT | s_req_http_HTT | s_req_http_HTTP | s_req_http_I | s_req_http_IC =>
    exact keeps_strictCheck (fun h => h) fun _ => keeps_goto_plain hok hup hup rfl
  | _ =>
    rw [hst] at hs
    cases hs

/-- **The work on a byte keeps the marks of the states**, in the outer loop. -/
theorem keeps_reexecute {loop : Loop} {set : MarkSet} (hc : Consistent p loop set) :
    (reexecute ch p).Keeps p.upgrade set := by
  have hok := hc.ok
  have hup := hc.upgrade
  have hset := hc.set_eq
  by_cases hstart : p.state.startsMessage = true
  · have hplain : p.state.plain = true ∧ inBody p ≠ true := by
      unfold inBody
      revert hstart
      cases p.state <;> first
        | exact fun _ => ⟨rfl, Bool.false_ne_true⟩
        | exact fun h => by cases h
    rw [hc.eq_empty hplain.1]
    exact keeps_reexecute_startsMessage hok (fun h => hplain.2 (hup h)) hstart
  unfold inBody at hup
  unfold reexecute
  cases hst : p.state with
  | s_req_schema | s_req_schema_slash | s_req_schema_slash_slash | s_req_server_start =>
    rw [hst] at hset hup
    rw [hset, hc.not_body (by rw [hst]; nofun)]
    exact keeps_reqSchema hok (fun h => nomatch hup h) fun h => nomatch hup h
  | s_req_server | s_req_server_with_at | s_req_path | s_req_query_string_start
  | s_req_query_string | s_req_fragment_start | s_req_fragment =>
    rw [hst] at hset hup
    rw [hset, hc.not_body (by rw [hst]; nofun)]
    exact keeps_reqUrl hok (fun h => nomatch hup h) fun h => nomatch hup h
  | s_res_status =>
    rw [hst] at hset hup
    rw [hset, hc.not_body (by rw [hst]; nofun)]
    exact keeps_resStatus hok (fun h => nomatch hup h) (fun h => nomatch hup h) hst
  | s_header_field =>
    rw [hst] at hset hup
    rw [hset, hc.not_body (by rw [hst]; nofun)]
    exact keeps_headerField hok (fun h => h) hup hst
  | s_header_value =>
    rw [hst] at hset hup
    rw [hset, hc.not_body (by rw [hst]; nofun)]
    exact keeps_headerValue hok (fun h => h) hup hst
  | s_chunk_data =>
    rw [hset, hst]
    exact keeps_chunkData hok (fun h => h) hst _
  | s_chunk_data_almost_done =>
    rw [hset, hst]
    exact keeps_chunkDataAlmostDone hok (fun h => h) _
  | s_body_identity =>
    rw [hset, hst]
    exact keeps_bodyIdentity hok (fun h => h) hst _
  | s_body_identity_eof =>
    rw [hset, hst]
    exact ⟨consistent_body (by rw [hst]; rfl) hok (by simp [hst]) true, fun h => h⟩
  | s_header_field_start =>
    rw [hst] at hup
    rw [hc.eq_empty (by rw [hst]; rfl)]
    exact keeps_headerFieldStart hok (fun h => h) hup
  | s_header_value_discard_ws =>
    rw [hst] at hup
    rw [hc.eq_empty (by rw [hst]; rfl)]
    exact keeps_headerValueDiscardWs hok (fun h => h) hup hst
  | s_header_value_discard_ws_almost_done =>
    rw [hst] at hup
    rw [hc.eq_empty (by rw [hst]; rfl)]
    exact keeps_strictCheck (fun h => h) fun _ => keeps_goto rfl hok (fun h => h) hup
  | s_header_value_discard_lws =>
    rw [hst] at hup
    rw [hc.eq_empty (by rw [hst]; rfl)]
    exact keeps_headerValueDiscardLws hok (fun h => h) hup
  | s_header_value_start =>
    rw [hst] at hup
    rw [hc.eq_empty (by rw [hst]; rfl)]
    exact keeps_headerValueStart hok (fun h => h) hup
  | s_header_value_lws =>
    rw [hst] at hup
    rw [hc.eq_empty (by rw [hst]; rfl)]
    exact keeps_headerValueLws hok (fun h => h) hup
  | s_header_almost_done =>
    rw [hst] at hup
    rw [hc.eq_empty (by rw [hst]; rfl)]
    exact keeps_headerAlmostDone hok (fun h => h) hup
  | s_headers_almost_done =>
    rw [hst] at hup
    rw [hc.eq_empty (by rw [hst]; rfl)]
    exact keeps_headersAlmostDone hok (fun h => h) hup
  | s_headers_done =>
    rw [hc.eq_empty (by rw [hst]; rfl)]
    exact keeps_headersDone hok fun h => h
  | s_message_done =>
    rw [hc.eq_empty (by rw [hst]; rfl)]
    exact keeps_messageDone hok fun h => h
  | s_chunk_size_start =>
    rw [hc.eq_empty (by rw [hst]; rfl)]
    exact keeps_chunkSizeStart hok fun h => h
  | s_chunk_size =>
    rw [hc.eq_empty (by rw [hst]; rfl)]
    exact keeps_chunkSize hok (fun h => h) hst
  | s_chunk_parameters =>
    rw [hc.eq_empty (by rw [hst]; rfl)]
    exact keeps_chunkParameters hok (fun h => h) hst
  | s_chunk_size_almost_done =>
    rw [hc.eq_empty (by rw [hst]; rfl)]
    exact keeps_chunkSizeAlmostDone hok fun h => h
  | s_chunk_data_done =>
    rw [hc.eq_empty (by rw [hst]; rfl)]
    exact keeps_chunkDataDone hok fun h => h
  | _ =>
    rw [hst] at hstart
    exact absurd rfl hstart

/-- Counting a byte leaves the states and the marks. -/
theorem Consistent.addRead {loop : Loop} {set : MarkSet} (hc : Consistent p loop set) (v : Nat) :
    Consistent (HttpParsing.addRead v p) loop set := by
  obtain ⟨h₁, h₂, h₃, h₄, h₅, h₆, h₇, h₈, h₉⟩ := hc
  exact ⟨h₁, h₂, h₃, h₄, h₅, h₆, h₇, h₈, h₉⟩

/-- **The work on a byte keeps the marks of the states**, and an upgraded message stays so. -/
theorem keeps_byteProg {loop : Loop} {set : MarkSet} (hc : Consistent p loop set) :
    (byteProg loop ch p).Keeps p.upgrade set := by
  have hset := hc.set_eq
  have hup := hc.upgrade
  unfold byteProg
  cases loop with
  | field k =>
    have hst : p.state = .s_header_field := hc.loop
    unfold inBody at hup
    rw [hst] at hset hup
    rw [hset, hc.not_body (by rw [hst]; nofun)]
    exact keeps_headerField hc.ok (fun h => h) hup hst
  | value k general =>
    have hst : p.state = .s_header_value := hc.loop
    unfold inBody at hup
    rw [hst] at hset hup
    rw [hset, hc.not_body (by rw [hst]; nofun)]
    exact keeps_headerValue hc.ok (fun h => h) hup hst
  | outer =>
    dsimp only
    split
    · exact keeps_countHeaderSize (fun h => h) (keeps_reexecute (hc.addRead 1))
    · exact keeps_reexecute hc

end HttpParsing
end Wuchat
