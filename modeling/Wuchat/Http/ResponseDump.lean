/-
# Responses that are read back

`HttpResponse::dump` on the server's side and `HttpResponseParser` on the client's: does the
client get the response that was printed, from its bytes alone?  `dump` prints the length of
a body only if there is one.  A response with an empty body then has neither a length nor a
transfer encoding, `http_parser` takes its body to go on to the end of the connection, and
`isFinished` stays false.

For the responses considered here (`Sendable`) the answer is exact: `Readable` says what the
parser asks of the body, of the numbers, of the characters and of the size of the head.
Such a response comes back (`readBack_of_readable`), and one that comes back is such a
response (`readable_of_readBack`), unless its reason phrase breaks the line and so prints
headers of its own, or its head has so many bytes that the counter of the parser wraps
around.
-/

import Wuchat.Http.ResponseHead

namespace Wuchat
namespace Http

open Foundation HttpParsing

/-! ### The parts of a printed response -/

namespace HttpResponse

/-- The phrase in the status line. -/
def phrase (r : HttpResponse) : Bytes :=
  if r.reason.isEmpty then HttpStatusToString r.status else r.reason

/-- The `connection` header that is printed for a response that is not a web socket's. -/
def connection (r : HttpResponse) : List (Bytes × Bytes) :=
  if r.webSocket then [] else [(str "connection", if r.close then str "close" else str "keep-alive")]

/-- The entries of `m_headers` that are printed. -/
def printed (r : HttpResponse) : List (Bytes × Bytes) :=
  r.headers.filter fun e => r.webSocket || strcasecmp e.1 (str "connection") ≠ 0

/-- The `content-length` header of a response with a body. -/
def contentLength (r : HttpResponse) : List (Bytes × Bytes) :=
  if r.body.isEmpty then [] else [(str "content-length", decimal r.body.length)]

/-- The number of bytes before the body. -/
def headSize (r : HttpResponse) : Nat :=
  (decimal (r.version / 16)).length + (decimal (r.version % 16)).length +
  (decimal r.status).length + r.phrase.length + 10 +
    ((r.connection ++ r.printed ++ r.contentLength).map fun e => e.1.length + e.2.length + 4).sum + 2

end HttpResponse

/-- The status line. -/
def statusLine (r : HttpResponse) : Bytes :=
  str "HTTP/" ++ (decimal (r.version / 16) ++ str ".") ++ (decimal (r.version % 16) ++ str " ") ++
    (decimal r.status ++ str " ") ++ (r.phrase ++ crlf)

/-- The bytes before the body. -/
def head (r : HttpResponse) : Bytes :=
  statusLine r ++ r.connection.flatMap line ++ r.printed.flatMap line ++ r.contentLength.flatMap line ++ crlf

/-- **A response is printed as its head and its body.** -/
theorem dump_eq (r : HttpResponse) : r.dump = head r ++ r.body := by
  have hconn : r.connection.flatMap line = if r.webSocket then []
      else str "connection: " ++ (if r.close then str "close" else str "keep-alive") ++ crlf := by
    have hname : str "connection" ++ str ": " = str "connection: " := by decide
    cases hws : r.webSocket <;> simp [HttpResponse.connection, line, hws, ← hname]
  have hlines : r.headers.flatMap r.dumpHeader = r.printed.flatMap line := by
    rw [HttpResponse.printed]
    induction r.headers with
    | nil => rfl
    | cons e es ih =>
      rw [List.flatMap_cons, ih, List.filter_cons]
      cases hws : r.webSocket
      · by_cases hc : strcasecmp e.1 (str "connection") = 0
        · simp [HttpResponse.dumpHeader, hws, hc]
        · simp [HttpResponse.dumpHeader, hws, hc, line]
      · simp [HttpResponse.dumpHeader, hws, line]
  have hlast : r.contentLength.flatMap line ++ crlf ++ r.body = if r.body.isEmpty then crlf
      else str "content-length: " ++ decimal r.body.length ++ crlf ++ crlf ++ r.body := by
    have hname : str "content-length" ++ str ": " = str "content-length: " := by decide
    cases hb : r.body.isEmpty
    · simp [HttpResponse.contentLength, line, hb, ← hname]
    · simp [HttpResponse.contentLength, List.isEmpty_iff.mp hb]
  rw [HttpResponse.dump, ← hconn, hlines, ← hlast, head, statusLine, ← HttpResponse.phrase]
  simp only [List.append_assoc]

/-- The size of the head. -/
theorem length_head (r : HttpResponse) : (head r).length = r.headSize := by
  have h₁ : (str "HTTP/").length = 5 := by decide
  have h₂ : (str ".").length = 1 := by decide
  have h₃ : (str " ").length = 1 := by decide
  have h₄ : crlf.length = 2 := by decide
  simp only [head, statusLine, HttpResponse.headSize, List.length_append, length_flatMap_line,
    List.map_append,
    List.sum_append, h₁, h₂, h₃, h₄]
  omega

/-! ### What is asked of a response -/

/-- **The responses considered.**  The status is one with a body, the headers are a map and none of
them says where the body ends, names are tokens and values stand in a line. -/
structure Sendable (r : HttpResponse) : Prop where
  ordered : r.headers.Pairwise fun a b => caseLess a.1 b.1 = true
  status : r.status / 100 ≠ 1 ∧ r.status ≠ 204 ∧ r.status ≠ 304
  noLength : r.headers.find (str "content-length") = none
  noEncoding : r.headers.find (str "transfer-encoding") = none
  noUpgrade : r.headers.find (str "upgrade") = none
  names : ∀ e ∈ r.headers, IsToken e.1
  values : ∀ e ∈ r.headers, IsValue e.2

/-- **The response comes back from its bytes**: no error, a finished message, the same version,
status and body, and the same headers but for `connection` and `content-length`. -/
structure ReadBack (r : HttpResponse) (e : HttpResponseParser) : Prop where
  error : e.error = .OK
  finished : e.target.finished = true
  version : e.target.data.version = r.version
  status : e.target.data.status = r.status
  body : e.target.data.body = r.body
  headers : ∀ x : Bytes × Bytes, caseFold x.1 ≠ str "connection" →
    caseFold x.1 ≠ str "content-length" →
    (x ∈ e.target.data.headers ↔ x ∈ r.headers)

/-- **What the parser asks of a response**: a body, two version numbers of one digit, a status of at
most three, a reason phrase in one line, values without control characters, a head that is not too
large and a length that is not either.  The first byte of a value is not looked at. -/
structure Readable (r : HttpResponse) : Prop where
  body : r.body ≠ []
  version : r.version / 16 ≤ 9 ∧ r.version % 16 ≤ 9
  status : r.status ≤ 999
  reason : CR ∉ r.reason ∧ LF ∉ r.reason
  values : ∀ e ∈ r.printed, ∀ ch ∈ e.2.tail, isHeaderChar ch = true
  size : r.headSize ≤ maxHeaderSize
  length : r.body.length / 10 ≤ (ULLONG_MAX - 10) / 10

/-! ### The head is read -/

variable {r : HttpResponse}

/-- No header of the response is one that the parser looks for. -/
theorem Sendable.ordinary (h : Sendable r) {e : Bytes × Bytes} (he : e ∈ r.headers) :
    (nameState e.1).1.ordinary = true :=
  ordinary_of_mem he (h.names e he) h.noLength h.noEncoding h.noUpgrade

/-- The response with more headers set. -/
def withHeaders (d : HttpResponse) (es : List (Bytes × Bytes)) : HttpResponse :=
  es.foldl (fun d e => d.setHeader e.1 e.2) d

/-- The header lines are scanned one by one. -/
theorem scans_withHeaders {v : View} {d : HttpResponse} {es : List (Bytes × Bytes)}
    (h : ∀ e ∈ es, Ordinary e) :
    Scans httpParserSettings2 (AtLine v d) (es.flatMap line)
      (∀ e ∈ es, ∀ ch ∈ e.2.tail, isHeaderChar ch = true) (AtLine v (withHeaders d es)) :=
  scans_lines fills_response h

/-- A literal is in one line if the bytes of its characters are. -/
theorem literal_line {l : List Char} {s : Bytes} (hs : s = l.map fun c => UInt8.ofNat c.toNat)
    (h : s ≠ [] ∧ CR ∉ s ∧ LF ∉ s) :
    str (String.ofList l) ≠ [] ∧ CR ∉ str (String.ofList l) ∧ LF ∉ str (String.ofList l) := by
  rwa [str_ofList, ← hs]

/-- The phrases of the table are in one line. -/
theorem statusMap_line : ∀ e ∈ statusMap, str e.2 ≠ [] ∧ CR ∉ str e.2 ∧ LF ∉ str e.2 := by
  simp only [statusMap, List.forall_mem_cons]
  repeat refine ⟨literal_line rfl (by decide), ?_⟩
  exact nofun

/-- The phrase of a status is in one line. -/
theorem phrase_line (hcr : CR ∉ r.reason) (hlf : LF ∉ r.reason) : r.phrase ≠ [] ∧ CR ∉ r.phrase ∧
    LF ∉ r.phrase := by
  unfold HttpResponse.phrase
  split
  · unfold HttpStatusToString
    split
    · exact statusMap_line _ (List.mem_of_find?_eq_some ‹_›)
    · decide
  · rename_i hne
    exact ⟨fun h => hne (by rw [h]; rfl), hcr, hlf⟩

/-- What the parser has read in the status line. -/
def statusView (r : HttpResponse) : View :=
  { View.fresh with http_major := r.version / 16, http_minor := r.version % 16, status_code := r.status }

/-- What a parser starts with. -/
def start : Target HttpResponse := ⟨.new, false, []⟩

/-- **The status line.** -/
theorem scans_statusLine (hcr : CR ∉ r.reason) (hlf : LF ∉ r.reason) : Scans httpParserSettings2
    (Here .s_start_res (view (http_parser_init .HTTP_RESPONSE)) noMarks start) (statusLine r)
    ((r.version / 16 ≤ 9 ∧ r.version % 16 ≤ 9) ∧ r.status ≤ 999)
    (AtLine (statusView r) { HttpResponse.new with status := r.status }) := by
  obtain ⟨hne, hcr', hlf'⟩ := phrase_line hcr hlf
  have hversion := scans_protocol (t := start).then (scans_major (r.version / 16))
  have hline := ((hversion.append fun _ => scans_minor (r.version % 16)).append
    fun _ => scans_status r.status).append
    fun _ => scans_reason hne hcr' hlf'
  refine (hline.congr ⟨And.left, fun h => ⟨h, trivial⟩⟩).post ?_
  rintro n p loop l ⟨hloop, hs, hv, hn, hl⟩
  exact ⟨hloop, .inl hs, hv, hn, [], hl⟩

/-- What the parser has read in the head. -/
def headView (r : HttpResponse) : View :=
  if r.body.isEmpty then statusView r
  else { statusView r with contentlength := true, content_length := r.body.length }

/-- The head's view differs from the status line's in its length. -/
theorem headView_eq :
    ∃ b n, headView r = { statusView r with contentlength := b, content_length := n } ∧ n ≠ 0 := by
  unfold headView
  cases hb : r.body.isEmpty
  · refine ⟨true, r.body.length, rfl, fun h => ?_⟩
    rw [List.length_eq_zero_iff.mp h] at hb
    cases hb
  · exact ⟨false, ULLONG_MAX, rfl, by decide⟩

/-- The headers of the printed response. -/
def entries (r : HttpResponse) : List (Bytes × Bytes) := r.connection ++ r.printed ++ r.contentLength

/-- The response that the parser has when the head is read. -/
def headData (r : HttpResponse) : HttpResponse :=
  (headView r).complete (withHeaders { HttpResponse.new with status := r.status } (entries r))

/-- The line with the length, if there is one. -/
theorem scans_contentLength {d : HttpResponse} : Scans httpParserSettings2 (AtLine (statusView r) d)
    (r.contentLength.flatMap line) (r.body.length / 10 ≤ (ULLONG_MAX - 10) / 10)
    (AtLine (headView r) (withHeaders d r.contentLength)) := by
  unfold headView HttpResponse.contentLength
  cases hb : r.body.isEmpty
  · have hname : str "content-length" ++ str ": " = str "content-length: " := by decide
    have hline : [(str "content-length", decimal r.body.length)].flatMap line =
        str "content-length: " ++ decimal r.body.length ++ crlf := by
      simp [line, ← hname]
    rw [if_neg Bool.false_ne_true, if_neg Bool.false_ne_true, hline]
    exact scans_length fills_response rfl r.body.length
  · rw [if_pos rfl, if_pos rfl, List.isEmpty_iff.mp hb]
    exact .nil (Nat.zero_le _)

/-- The bytes before the empty line. -/
def headLines (r : HttpResponse) : Bytes :=
  statusLine r ++ r.connection.flatMap line ++ r.printed.flatMap line ++ r.contentLength.flatMap line

/-- **The head of a response up to its empty line**, read by a new parser. -/
theorem scans_headLines (h : Sendable r) (hcr : CR ∉ r.reason) (hlf : LF ∉ r.reason) :
    Scans httpParserSettings2
    (Here .s_start_res (view (http_parser_init .HTTP_RESPONSE)) noMarks start) (headLines r)
    (((r.version / 16 ≤ 9 ∧ r.version % 16 ≤ 9) ∧ r.status ≤ 999) ∧
      (∀ e ∈ r.printed, ∀ ch ∈ e.2.tail, isHeaderChar ch = true) ∧
        r.body.length / 10 ≤ (ULLONG_MAX - 10) / 10)
    (AtLine (headView r) (withHeaders { HttpResponse.new with status := r.status } (entries r))) := by
  have hconn : ∀ e ∈ r.connection, Ordinary e ∧ ∀ ch ∈ e.2.tail, isHeaderChar ch = true := by
    unfold HttpResponse.connection
    cases r.webSocket <;> cases r.close <;> simp [Ordinary, IsToken, IsValue] <;> decide +kernel
  have hprinted : ∀ e ∈ r.printed, Ordinary e := by
    intro e he
    have hmem := (List.mem_filter.mp he).1
    exact ⟨h.names e hmem, h.ordinary hmem, h.values e hmem⟩
  have hlines := scans_withHeaders (v := statusView r)
    (d := { HttpResponse.new with status := r.status }) fun e he => (hconn e he).1
  have hfirst := (scans_statusLine hcr hlf).append fun _ => hlines
  have hmore := (hfirst.append fun _ => scans_withHeaders hprinted).append fun _ => scans_contentLength
  have hentries : withHeaders (withHeaders
      (withHeaders { HttpResponse.new with status := r.status } r.connection)
      r.printed) r.contentLength = withHeaders { HttpResponse.new with status := r.status }
        (entries r) := by
    simp only [withHeaders, entries, List.foldl_append]
  rw [hentries] at hmore
  refine hmore.congr ?_
  constructor
  · rintro ⟨⟨⟨hs, -⟩, hp⟩, hl⟩
    exact ⟨hs, hp, hl⟩
  · rintro ⟨hs, hp, hl⟩
    exact ⟨⟨⟨hs, fun e he => (hconn e he).2⟩, hp⟩, hl⟩

/-- **The head of a response**, read by a new parser. -/
theorem scans_head (h : Sendable r) (hcr : CR ∉ r.reason) (hlf : LF ∉ r.reason) :
    Scans httpParserSettings2
    (Here .s_start_res (view (http_parser_init .HTTP_RESPONSE)) noMarks start) (head r)
    (((r.version / 16 ≤ 9 ∧ r.version % 16 ≤ 9) ∧ r.status ≤ 999) ∧
      (∀ e ∈ r.printed, ∀ ch ∈ e.2.tail, isHeaderChar ch = true) ∧
        r.body.length / 10 ≤ (ULLONG_MAX - 10) / 10)
    fun _ => AtBody (headView r) (headData r) := by
  have hempty : Scans httpParserSettings2 (AtLine (headView r)
      (withHeaders { HttpResponse.new with status := r.status } (entries r))) crlf True
      fun _ => AtBody (headView r) (headData r) := by
    unfold headData
    obtain ⟨b, n, hview, hn⟩ := headView_eq (r := r)
    rw [hview]
    exact scans_empty ⟨rfl, rfl, nofun, rfl, rfl, rfl, rfl⟩ hn h.status
  exact ((scans_headLines h hcr hlf).append fun _ => hempty).congr (and_iff_left trivial)

/-! ### What the parser reports -/

/-- A new parser has no mark to begin with. -/
theorem startMarks_new : startMarks (http_parser_init .HTTP_RESPONSE).state = noMarks := by
  funext m
  cases m <;> rfl

/-- A run that has taken all bytes. -/
theorem execute_of_next {data : Bytes} (hne : data ≠ []) {q : HttpParser} {t : Target HttpResponse}
    (h : runBytes httpParserSettings2 data (http_parser_init .HTTP_RESPONSE) .outer ⟨noMarks, start⟩ =
      .next q .outer ⟨noMarks, t⟩) (hq : q.http_errno = .OK) :
    (HttpResponseParser.new.execute data).1 = ⟨q, .OK, t⟩ := by
  have hexec : http_parser_execute httpParserSettings2 HttpResponseParser.new.parser data
      HttpResponseParser.new.target = ⟨data.length, q, t⟩ := execute_of_taken rfl startMarks_new hne h
  unfold HttpResponseParser.execute
  rw [hexec]
  dsimp only
  rw [if_neg (not_not_intro hq)]
  rfl

/-- A run that has ended with an error. -/
theorem execute_of_exit {data : Bytes} (hne : data ≠ []) {q : HttpParser} {adv : Nat}
    {l : Locals (Target HttpResponse)}
    (h : runBytes httpParserSettings2 data (http_parser_init .HTTP_RESPONSE) .outer
      ⟨noMarks, start⟩ = .exit q adv l)
    (hq : q.http_errno ≠ .OK) : (HttpResponseParser.new.execute data).1.error ≠ .OK := by
  have hexec : (http_parser_execute httpParserSettings2 HttpResponseParser.new.parser data
      HttpResponseParser.new.target).parser = q := execute_of_exited rfl startMarks_new hne h
  unfold HttpResponseParser.execute
  dsimp only
  rw [hexec, if_pos hq]
  exact hq

/-- A dump has a byte at least. -/
theorem dump_ne_nil (r : HttpResponse) : r.dump ≠ [] := by
  rw [dump_eq, head, statusLine]
  simp [crlf, str]

/-- **How a response is read**: an error, unless all that the parser asks of its head is there, and
then the parser stands before the body. -/
theorem read_head (h : Sendable r) (hcr : CR ∉ r.reason) (hlf : LF ∉ r.reason)
    (hsize : r.headSize < 2 ^ 32) :
    (runBytes httpParserSettings2 (head r)
      (http_parser_init .HTTP_RESPONSE) .outer ⟨noMarks, start⟩).Exactly
      (r.headSize ≤ maxHeaderSize ∧ ((r.version / 16 ≤ 9 ∧ r.version % 16 ≤ 9) ∧ r.status ≤ 999) ∧
        (∀ e ∈ r.printed, ∀ ch ∈ e.2.tail, isHeaderChar ch = true) ∧
          r.body.length / 10 ≤ (ULLONG_MAX - 10) / 10)
      (AtBody (headView r) (headData r)) := by
  have hscan := scans_head h hcr hlf 0 (Nat.zero_le _) (by rw [length_head]; omega)
    (http_parser_init .HTTP_RESPONSE)
    .outer ⟨noMarks, start⟩ ⟨rfl, rfl, rfl, rfl, rfl⟩
  rwa [length_head, Nat.zero_add] at hscan

/-! ### What comes back -/

/-- Headers set in turn. -/
theorem withHeaders_eq (d : HttpResponse) (es : List (Bytes × Bytes)) :
    withHeaders d es = { d with headers := es.foldl (fun m e => OrdMap.set caseLess e.1 e.2 m) d.headers } := by
  induction es generalizing d with
  | nil => rfl
  | cons e es ih =>
    rw [withHeaders, List.foldl_cons, ← withHeaders, ih]
    rfl

/-- The connection line's name. -/
theorem fold_of_mem_connection {e : Bytes × Bytes} (he : e ∈ r.connection) :
    r.webSocket = false ∧ caseFold e.1 = str "connection" := by
  unfold HttpResponse.connection at he
  split at he
  · cases he
  · rename_i hws
    rw [List.mem_singleton.mp he]
    exact ⟨Bool.eq_false_iff.mpr hws, (by decide : caseFold (str "connection") = str "connection")⟩

/-- The length line's name. -/
theorem fold_of_mem_contentLength {e : Bytes × Bytes} (he : e ∈ r.contentLength) :
    caseFold e.1 = str "content-length" := by
  unfold HttpResponse.contentLength at he
  split at he
  · cases he
  · rw [List.mem_singleton.mp he]
    exact (by decide : caseFold (str "content-length") = str "content-length")

/-- Which headers are printed. -/
theorem mem_printed {e : Bytes × Bytes} :
    e ∈ r.printed ↔ e ∈ r.headers ∧ (r.webSocket = true ∨ caseFold e.1 ≠ str "connection") := by
  have hconn : caseFold (str "connection") = str "connection" := by decide
  rw [HttpResponse.printed, List.mem_filter, Bool.or_eq_true, decide_eq_true_eq, Ne,
    strcasecmp_eq_zero_iff, hconn]

/-- The lines of a response are those of its headers. -/
theorem Sendable.printed (h : Sendable r) : Printed r.headers r.connection r.printed r.contentLength where
  ordered := h.ordered
  sub := List.filter_sublist
  oneConnection := by
    unfold HttpResponse.connection
    split <;> simp
  connection := by
    intro e he
    obtain ⟨hws, hfold⟩ := fold_of_mem_connection he
    refine ⟨hfold, fun e' he' => (mem_printed.mp he').2.resolve_left ?_⟩
    rw [hws]
    nofun
  oneLength := by
    unfold HttpResponse.contentLength
    split <;> simp
  length := fun e he => fold_of_mem_contentLength he
  noLength := by
    have := OrdMap.ne_of_find_eq_none caseLess_keyed h.noLength
    rwa [show caseFold (str "content-length") = str "content-length" from by decide] at this

/-- **The headers that the parser has when the head is read.** -/
theorem Sendable.mem_headData (h : Sendable r) {x : Bytes × Bytes}
    (hconn : caseFold x.1 ≠ str "connection")
    (hlength : caseFold x.1 ≠ str "content-length") : x ∈ (headData r).headers ↔ x ∈ r.headers := by
  have hmem : x ∈ (headData r).headers ↔ x ∈ r.printed := by
    rw [headData, withHeaders_eq]
    exact h.printed.mem_foldl hconn hlength
  rw [hmem, mem_printed]
  exact ⟨And.left, fun hx => ⟨hx, .inr hconn⟩⟩

/-- A response whose head is read, and whose body follows, comes back. -/
theorem readBack_of_readable (h : Sendable r) (hr : Readable r) :
    ReadBack r (HttpResponseParser.new.execute r.dump).1 := by
  have hread := read_head h hr.reason.1 hr.reason.2 (Nat.lt_of_le_of_lt hr.size (by decide))
  cases hrun : runBytes httpParserSettings2 (head r)
    (http_parser_init .HTTP_RESPONSE) .outer ⟨noMarks, start⟩ with
  | exit q adv l =>
    rw [hrun] at hread
    exact (hread.1 ⟨hr.size, ⟨hr.version, hr.status⟩, hr.values, hr.length⟩).elim
  | next q loop l =>
    rw [hrun] at hread
    obtain ⟨-, rfl, hs, herr, hup, hlength, filed, rfl⟩ := hread
    have hview : headView r =
        { statusView r with contentlength := true, content_length := r.body.length } :=
      if_neg (by simp [hr.body])
    have hnum : (headView r).content_length = r.body.length := by rw [hview]
    have hmax : r.body.length ≠ ULLONG_MAX := by
      have := hr.length
      have hval : ULLONG_MAX = 18446744073709551615 := by decide
      omega
    have hstate : q.state = .s_body_identity := by
      rw [hs, View.bodyState, if_neg (by rw [hnum]; exact hmax)]
    obtain ⟨q', hbody, herr', -⟩ := runBytes_body fills_response (m := [])
      (t := ⟨headData r, false, filed⟩) hr.body hstate
      (hlength.trans hnum) hup (mark_noMarks .body _)
    have hall : runBytes httpParserSettings2 r.dump (http_parser_init .HTTP_RESPONSE) .outer
        ⟨noMarks, start⟩ =
        .next q' .outer ⟨noMarks, ⟨(headData r).appendBody r.body, true, filed⟩⟩ := by
      rw [dump_eq, runBytes_append, hrun]
      exact hbody
    rw [execute_of_next (dump_ne_nil r) hall (herr'.trans herr)]
    refine ⟨rfl, rfl, ?_, ?_, ?_, fun x => h.mem_headData⟩
    · show (headView r).http_major * 16 + (headView r).http_minor = r.version
      rw [hview]
      show r.version / 16 * 16 + r.version % 16 = r.version
      omega
    · show (headView r).status_code = r.status
      rw [hview]
      rfl
    · show (headData r).body ++ r.body = r.body
      rw [headData, withHeaders_eq]
      rfl

/-- A response that comes back had what the parser asks of it. -/
theorem readable_of_readBack (h : Sendable r) (hcr : CR ∉ r.reason) (hlf : LF ∉ r.reason)
    (hsize : r.headSize < 2 ^ 32)
    (hback : ReadBack r (HttpResponseParser.new.execute r.dump).1) : Readable r := by
  have hread := read_head h hcr hlf hsize
  cases hrun : runBytes httpParserSettings2 (head r)
    (http_parser_init .HTTP_RESPONSE) .outer ⟨noMarks, start⟩ with
  | exit q adv l =>
    rw [hrun] at hread
    have hall : runBytes httpParserSettings2 r.dump (http_parser_init .HTTP_RESPONSE) .outer
        ⟨noMarks, start⟩ =
        .exit q adv l := by rw [dump_eq, runBytes_append, hrun]
    exact (execute_of_exit (dump_ne_nil r) hall hread.2 hback.error).elim
  | next q loop l =>
    rw [hrun] at hread
    obtain ⟨⟨hmax, ⟨hversion, hstatus⟩, hvalues, hlength⟩, rfl, hs, herr, -, -, filed, rfl⟩ := hread
    refine ⟨fun hnil => ?_, hversion, hstatus, ⟨hcr, hlf⟩, hvalues, hmax, hlength⟩
    -- without a body the message is not finished
    have hall : runBytes httpParserSettings2 r.dump (http_parser_init .HTTP_RESPONSE) .outer
        ⟨noMarks, start⟩ =
        .next q .outer ⟨noMarks, ⟨headData r, false, filed⟩⟩ := by
      rw [dump_eq, hnil, List.append_nil, hrun]
    have hfinished := hback.finished
    rw [execute_of_next (dump_ne_nil r) hall herr] at hfinished
    cases hfinished

/-- **When a printed response is read back.**  It is if the parser gets what it asks for; and a
response whose reason phrase is in one line and whose head is not beyond the parser's counter is
read back only then. -/
theorem dump_readBack (r : HttpResponse) (h : Sendable r) :
    (Readable r → ReadBack r (HttpResponseParser.new.execute r.dump).1) ∧
      (CR ∉ r.reason → LF ∉ r.reason → r.headSize < 2 ^ 32 →
        ReadBack r (HttpResponseParser.new.execute r.dump).1 → Readable r) :=
  ⟨readBack_of_readable h, readable_of_readBack h⟩

/-- A page with one header. -/
def page : HttpResponse :=
  { HttpResponse.new with body := str "hi", headers := [(str "Server", str "luwu")] }

/-- The statement at a page. -/
theorem dump_readBack_page : Readable page ∧
    ReadBack page (HttpResponseParser.new.execute page.dump).1 := by
  have hsend : Sendable page :=
    ⟨by decide, by decide, rfl, rfl, rfl, by decide +kernel, by decide +kernel⟩
  have hread : Readable page :=
    ⟨by decide, by decide, by decide, by decide, by decide +kernel, by decide, by decide⟩
  exact ⟨hread, (dump_readBack page hsend).1 hread⟩

/-- A new response has no body, and the client waits for one. -/
theorem new_response_not_finished : Sendable HttpResponse.new ∧
    ¬ReadBack HttpResponse.new (HttpResponseParser.new.execute HttpResponse.new.dump).1 := by
  refine ⟨⟨by decide, by decide, rfl, rfl, rfl, nofun, nofun⟩, fun h => ?_⟩
  exact absurd h.finished (by decide)

end Http
end Wuchat
