/-
# Requests that are read back

`HttpRequest::dump` on one side and `HttpRequestParser` on the other: does the parser get the
request that was printed?  `HttpMethodToString` compares the number of a method with the
length of the first name of its table, which is that of `DELETE`.  From `OPTIONS` on a method
is therefore printed as `<unknown>`, and the parser refuses the line.

For the requests considered here (`HttpRequest.Sendable`) the answer is exact:
`HttpRequest.Readable` says what the parser asks of the method, of the URL, of the characters
and of the sizes.  Such a request comes back, and one that comes back is such a request,
unless its head has so many bytes that the counter of the parser wraps around.
-/

import Wuchat.Http.RequestHead

namespace Wuchat
namespace Http

open Foundation HttpParsing

namespace HttpRequest

/-! ### The parts of a printed request -/

/-- The URL in the request line. -/
def url (r : HttpRequest) : Bytes := urlText r.path r.query r.fragment

/-- The `Connection` header that is printed for a request that is not a web socket's. -/
def connection (r : HttpRequest) : List (Bytes × Bytes) :=
  if r.webSocket then [] else [(str "Connection", if r.close then str "close" else str "keep-alive")]

/-- The entries of `m_headers` that are printed. -/
def printed (r : HttpRequest) : List (Bytes × Bytes) :=
  r.headers.filter fun e => (r.webSocket || strcasecmp e.1 (str "Connection") ≠ 0) &&
    (r.body.isEmpty || strcasecmp e.1 (str "content-length") ≠ 0)

/-- The `content-length` header of a request with a body. -/
def contentLength (r : HttpRequest) : List (Bytes × Bytes) :=
  if r.body.isEmpty then [] else [(str "content-length", decimal r.body.length)]

/-- The headers of the printed request. -/
def entries (r : HttpRequest) : List (Bytes × Bytes) := r.connection ++ r.printed ++ r.contentLength

/-- The number of bytes before the body. -/
def headSize (r : HttpRequest) : Nat :=
  (HttpMethodToString r.method).length + r.url.length + (decimal (r.version / 16)).length +
    (decimal (r.version % 16)).length + 10 + (r.entries.map fun e => e.1.length + e.2.length + 4).sum + 2

/-- The request line. -/
def requestLine (r : HttpRequest) : Bytes :=
  HttpMethodToString r.method ++ str " " ++ (r.url ++ str " ") ++
    (str "HTTP/" ++ (decimal (r.version / 16) ++ str ".") ++ (decimal (r.version % 16) ++ crlf))

/-- The bytes before the body. -/
def head (r : HttpRequest) : Bytes :=
  r.requestLine ++ r.connection.flatMap line ++ r.printed.flatMap line ++ r.contentLength.flatMap line ++ crlf

/-- **A request is printed as its head and its body.** -/
theorem dump_eq (r : HttpRequest) : r.dump = r.head ++ r.body := by
  have hconn : r.connection.flatMap line = if r.webSocket then []
      else str "Connection: " ++ (if r.close then str "close" else str "keep-alive") ++ crlf := by
    have hname : str "Connection" ++ str ": " = str "Connection: " := by decide
    cases hws : r.webSocket <;> simp [connection, line, hws, ← hname]
  have hlines : r.headers.flatMap r.dumpHeader = r.printed.flatMap line := by
    rw [printed]
    induction r.headers with
    | nil => rfl
    | cons e es ih =>
      have hheader : r.dumpHeader e = if ((r.webSocket || strcasecmp e.1 (str "Connection") ≠ 0) &&
          (r.body.isEmpty || strcasecmp e.1 (str "content-length") ≠ 0)) then line e else [] := by
        unfold dumpHeader line
        by_cases hc : strcasecmp e.1 (str "Connection") = 0 <;>
          by_cases hl : strcasecmp e.1 (str "content-length") = 0 <;>
          cases r.webSocket <;> cases r.body.isEmpty <;> simp [hc, hl]
      rw [List.flatMap_cons, ih, List.filter_cons, hheader]
      split <;> simp
  have hlast : r.contentLength.flatMap line ++ crlf ++ r.body = if r.body.isEmpty then crlf
      else str "content-length: " ++ decimal r.body.length ++ crlf ++ crlf ++ r.body := by
    have hname : str "content-length" ++ str ": " = str "content-length: " := by decide
    cases hb : r.body.isEmpty
    · simp [contentLength, line, hb, ← hname]
    · simp [contentLength, List.isEmpty_iff.mp hb]
  have hurl : r.path ++ (if r.query.isEmpty then [] else str "?") ++ r.query ++
      (if r.fragment.isEmpty then [] else str "#") ++ r.fragment = r.url := by
    unfold url urlText
    cases r.query <;> cases r.fragment <;> simp
  have hhttp : str " " ++ str "HTTP/" = str " HTTP/" := by decide
  rw [dump, ← hconn, hlines, ← hlast, head, requestLine, ← hhttp, ← hurl]
  simp only [List.append_assoc]

/-- The size of the head. -/
theorem length_head (r : HttpRequest) : r.head.length = r.headSize := by
  have h₁ : (str "HTTP/").length = 5 := by decide
  have h₂ : (str ".").length = 1 := by decide
  have h₃ : (str " ").length = 1 := by decide
  have h₄ : crlf.length = 2 := by decide
  simp only [head, requestLine, headSize, entries, List.length_append, length_flatMap_line, List.map_append,
    List.sum_append, h₁, h₂, h₃, h₄]
  omega

/-- A dump has a byte at least. -/
theorem dump_ne_nil (r : HttpRequest) : r.dump ≠ [] := by
  rw [dump_eq, head]
  simp [crlf, str]

/-! ### What is asked of a request -/

/-- **The requests considered.**  The URL has the characters of its parts, the headers are a map and
none of them says where the body ends, names are tokens and values stand in a line. -/
structure Sendable (r : HttpRequest) : Prop where
  webSocket : r.webSocket = false
  method : r.method ≠ .CONNECT
  version : r.version = 0x10 ∨ r.version = 0x11
  url : IsUrl r.path r.query r.fragment
  ordered : r.headers.Pairwise fun a b => caseLess a.1 b.1 = true
  noLength : r.headers.find (str "content-length") = none
  noEncoding : r.headers.find (str "transfer-encoding") = none
  noUpgrade : r.headers.find (str "upgrade") = none
  names : ∀ e ∈ r.headers, IsToken e.1
  values : ∀ e ∈ r.headers, IsValue e.2

/-- **The request comes back from its bytes**: no error, a finished message, the same method, parts
of the URL, version and body, and the same headers but for `connection` and `content-length`. -/
structure ReadBack (r : HttpRequest) (e : HttpRequestParser) : Prop where
  error : e.error = .OK
  finished : e.target.finished = true
  method : e.target.data.method = r.method
  path : e.target.data.path = r.path
  query : e.target.data.query = r.query
  fragment : e.target.data.fragment = r.fragment
  version : e.target.data.version = r.version
  body : e.target.data.body = r.body
  headers : ∀ x : Bytes × Bytes, caseFold x.1 ≠ str "connection" →
    caseFold x.1 ≠ str "content-length" →
    (x ∈ e.target.data.headers ↔ x ∈ r.headers)

/-- **What the parser takes**: a method that is printed by its name, values without control
characters, a head that is not too large and a length that is not either.  The first byte of a value
is not looked at. -/
structure Taken (r : HttpRequest) : Prop where
  method : r.method.num < 6
  values : ∀ e ∈ r.printed, ∀ ch ∈ e.2.tail, isHeaderChar ch = true
  size : r.headSize ≤ maxHeaderSize
  length : r.body.length / 10 ≤ (ULLONG_MAX - 10) / 10

/-- **What the parser asks of a request**: that it takes it, and that the parts of the URL are found
in it again. -/
structure Readable (r : HttpRequest) : Prop extends Taken r where
  url : Located r.path r.query r.fragment

variable {r : HttpRequest}

/-- The connection line's name. -/
theorem fold_of_mem_connection {e : Bytes × Bytes} (he : e ∈ r.connection) :
    caseFold e.1 = str "connection" := by
  unfold connection at he
  split at he
  · cases he
  · rw [List.mem_singleton.mp he]
    exact (by decide : caseFold (str "Connection") = str "connection")

/-- The length line's name. -/
theorem fold_of_mem_contentLength {e : Bytes × Bytes} (he : e ∈ r.contentLength) :
    caseFold e.1 = str "content-length" := by
  unfold contentLength at he
  split at he
  · cases he
  · rw [List.mem_singleton.mp he]
    exact (by decide : caseFold (str "content-length") = str "content-length")

/-- A request has no length of its own. -/
theorem Sendable.length_ne (h : Sendable r) : ∀ e ∈ r.headers, caseFold e.1 ≠ str "content-length" := by
  have := OrdMap.ne_of_find_eq_none caseLess_keyed h.noLength
  rwa [show caseFold (str "content-length") = str "content-length" from by decide] at this

/-- Which headers are printed. -/
theorem Sendable.mem_printed (h : Sendable r) {e : Bytes × Bytes} :
    e ∈ r.printed ↔ e ∈ r.headers ∧ caseFold e.1 ≠ str "connection" := by
  have hconn : caseFold (str "Connection") = str "connection" := by decide
  have hlen : caseFold (str "content-length") = str "content-length" := by decide
  rw [HttpRequest.printed, List.mem_filter, Bool.and_eq_true, Bool.or_eq_true, Bool.or_eq_true, decide_eq_true_eq,
    decide_eq_true_eq, Ne, Ne, strcasecmp_eq_zero_iff, strcasecmp_eq_zero_iff, hconn, hlen, h.webSocket]
  constructor
  · rintro ⟨he, hne, -⟩
    exact ⟨he, hne.resolve_left nofun⟩
  · rintro ⟨he, hne⟩
    exact ⟨he, .inr hne, .inr (h.length_ne e he)⟩

/-- The lines of a request are those of its headers. -/
theorem Sendable.printed (h : Sendable r) : Printed r.headers r.connection r.printed r.contentLength where
  ordered := h.ordered
  sub := List.filter_sublist
  oneConnection := by
    unfold HttpRequest.connection
    split <;> simp
  connection := fun e he => ⟨fold_of_mem_connection he, fun e' he' => (h.mem_printed.mp he').2⟩
  oneLength := by
    unfold HttpRequest.contentLength
    split <;> simp
  length := fun e he => fold_of_mem_contentLength he
  noLength := h.length_ne

/-! ### The head is read -/

/-- What a parser starts with. -/
def start : Target HttpRequest := ⟨.new, false, []⟩

/-- What the parser has read in the request line. -/
def lineView (r : HttpRequest) : View :=
  { View.asked r.method with http_major := r.version / 16, http_minor := r.version % 16 }

/-- What the parser has read in the head. -/
def headView (r : HttpRequest) : View :=
  if r.body.isEmpty then r.lineView
  else { r.lineView with contentlength := true, content_length := r.body.length }

/-- The request that the parser has after the request line. -/
def lineData (r : HttpRequest) : HttpRequest := (on_request_url_cb r.url start).1.data

/-- The request that the parser has when the head is read. -/
def headData (r : HttpRequest) : HttpRequest :=
  r.headView.request (r.entries.foldl (fun d e => d.setHeader e.1 e.2) r.lineData)

/-- Its version has two digits. -/
theorem Sendable.digits (h : Sendable r) : r.version / 16 ≤ 9 ∧ r.version % 16 ≤ 9 := by
  rcases h.version with hv | hv <;> rw [hv] <;> decide

/-- **The request line.** -/
theorem scans_requestLine (h : Sendable r) : Scans httpParserSettings1
    (Here .s_start_req (view (http_parser_init .HTTP_REQUEST)) noMarks start) r.requestLine
    (r.method.num < 6) (AtLine r.lineView r.lineData) := by
  have hcb : (on_request_url_cb r.url start).1 = ⟨r.lineData, false, []⟩ := by
    rw [lineData, on_request_url_cb]
    split <;> rfl
  have hline := ((scans_method (t := start) r.method).append fun _ =>
    scans_url (v := .asked r.method) h.url h.method).append
    fun _ => scans_version h.digits.1 h.digits.2
  refine (hline.congr ⟨fun hc => hc.1.1, fun hc => ⟨⟨hc, trivial⟩, trivial⟩⟩).post ?_
  rintro n p loop l ⟨hloop, hs, hv, hn, hl⟩
  refine ⟨hloop, .inl hs, hv, hn, [], ?_⟩
  rw [hl]
  exact congrArg _ hcb

/-- The line with the length, if there is one. -/
theorem scans_contentLength {d : HttpRequest} : Scans httpParserSettings1 (AtLine r.lineView d)
    (r.contentLength.flatMap line) (r.body.length / 10 ≤ (ULLONG_MAX - 10) / 10)
    (AtLine r.headView (r.contentLength.foldl (fun d e => d.setHeader e.1 e.2) d)) := by
  unfold headView contentLength
  cases hb : r.body.isEmpty
  · have hname : str "content-length" ++ str ": " = str "content-length: " := by decide
    have hline : [(str "content-length", decimal r.body.length)].flatMap line =
        str "content-length: " ++ decimal r.body.length ++ crlf := by
      simp [line, ← hname]
    rw [if_neg Bool.false_ne_true, if_neg Bool.false_ne_true, hline]
    exact scans_length fills_request rfl r.body.length
  · rw [if_pos rfl, if_pos rfl, List.isEmpty_iff.mp hb]
    exact .nil (Nat.zero_le _)

/-- Its head asks for what its headers say. -/
theorem Sendable.asks (h : Sendable r) : r.headView.Asks := by
  unfold headView
  cases hb : r.body.isEmpty
  · refine ⟨rfl, rfl, h.method, rfl, rfl, rfl, rfl, fun hzero => ?_⟩
    rw [List.length_eq_zero_iff.mp hzero] at hb
    cases hb
  · exact ⟨rfl, rfl, h.method, rfl, rfl, rfl, rfl, (by decide : ULLONG_MAX ≠ 0)⟩

/-- The bytes before the empty line. -/
def headLines (r : HttpRequest) : Bytes :=
  r.requestLine ++ r.connection.flatMap line ++ r.printed.flatMap line ++ r.contentLength.flatMap line

/-- **The head of a request up to its empty line**, read by a new parser. -/
theorem scans_headLines (h : Sendable r) : Scans httpParserSettings1
    (Here .s_start_req (view (http_parser_init .HTTP_REQUEST)) noMarks start) r.headLines
    (r.method.num < 6 ∧ (∀ e ∈ r.printed, ∀ ch ∈ e.2.tail, isHeaderChar ch = true) ∧
      r.body.length / 10 ≤ (ULLONG_MAX - 10) / 10)
    (AtLine r.headView (r.entries.foldl (fun d e => d.setHeader e.1 e.2) r.lineData)) := by
  have hconn : ∀ e ∈ r.connection, Ordinary e ∧ ∀ ch ∈ e.2.tail, isHeaderChar ch = true := by
    unfold connection
    cases r.webSocket <;> cases r.close <;> simp [Ordinary, IsToken, IsValue] <;> decide +kernel
  have hprinted : ∀ e ∈ r.printed, Ordinary e := by
    intro e he
    have hmem := (h.mem_printed.mp he).1
    exact ⟨h.names e hmem, ordinary_of_mem hmem (h.names e hmem) h.noLength h.noEncoding h.noUpgrade,
      h.values e hmem⟩
  have hfirst := (scans_requestLine h).append fun _ => scans_lines fills_request fun e he => (hconn e he).1
  have hlines := (hfirst.append fun _ => scans_lines fills_request hprinted).append fun _ => scans_contentLength
  rw [← List.foldl_append, ← List.foldl_append, ← List.append_assoc r.connection] at hlines
  refine hlines.congr ?_
  constructor
  · rintro ⟨⟨⟨hm, -⟩, hv⟩, hl⟩
    exact ⟨hm, hv, hl⟩
  · rintro ⟨hm, hv, hl⟩
    exact ⟨⟨⟨hm, fun e he => (hconn e he).2⟩, hv⟩, hl⟩

/-- **The head of a request**, read by a new parser. -/
theorem scans_head (h : Sendable r) : Scans httpParserSettings1
    (Here .s_start_req (view (http_parser_init .HTTP_REQUEST)) noMarks start) r.head
    (r.method.num < 6 ∧ (∀ e ∈ r.printed, ∀ ch ∈ e.2.tail, isHeaderChar ch = true) ∧
      r.body.length / 10 ≤ (ULLONG_MAX - 10) / 10)
    fun _ => PastHead r.headView r.headData :=
  ((scans_headLines h).append fun _ => scans_emptyRequest h.asks).congr (and_iff_left trivial)

/-! ### What the parser reports -/

/-- A new parser has no mark to begin with. -/
theorem startMarks_new : startMarks (http_parser_init .HTTP_REQUEST).state = noMarks := by
  funext m
  cases m <;> rfl

/-- A run that has taken all bytes. -/
theorem execute_of_next {data : Bytes} (hne : data ≠ []) {q : HttpParser} {t : Target HttpRequest}
    (h : runBytes httpParserSettings1 data (http_parser_init .HTTP_REQUEST) .outer ⟨noMarks, start⟩ =
      .next q .outer ⟨noMarks, t⟩) (hq : q.http_errno = .OK) (hup : q.upgrade = false) :
    (HttpRequestParser.new.execute data).1 = ⟨q, .OK, t⟩ := by
  have hexec : http_parser_execute httpParserSettings1 HttpRequestParser.new.parser data
      HttpRequestParser.new.target = ⟨data.length, q, t⟩ := execute_of_taken rfl startMarks_new hne h
  unfold HttpRequestParser.execute
  rw [hexec]
  dsimp only
  rw [hup, if_neg Bool.false_ne_true, if_neg (not_not_intro hq)]
  rfl

/-- A run that has ended with an error. -/
theorem execute_of_exit {data : Bytes} (hne : data ≠ []) {q : HttpParser} {adv : Nat}
    {l : Locals (Target HttpRequest)}
    (h : runBytes httpParserSettings1 data (http_parser_init .HTTP_REQUEST) .outer
      ⟨noMarks, start⟩ = .exit q adv l)
    (hq : q.http_errno ≠ .OK) : (HttpRequestParser.new.execute data).1.error ≠ .OK := by
  have hexec : (http_parser_execute httpParserSettings1 HttpRequestParser.new.parser data
      HttpRequestParser.new.target).parser = q := execute_of_exited rfl startMarks_new hne h
  unfold HttpRequestParser.execute
  dsimp only
  rw [hexec, if_pos hq]
  split
  · nofun
  · exact hq

/-- **How the head of a request is read**: an error, unless the parser takes the request. -/
theorem read_head (h : Sendable r) (hsize : r.headSize < 2 ^ 32) :
    (runBytes httpParserSettings1 r.head (http_parser_init .HTTP_REQUEST) .outer ⟨noMarks, start⟩).Exactly
      (Taken r) (PastHead r.headView r.headData) := by
  have hscan := scans_head h 0 (Nat.zero_le _) (by rw [length_head]; omega) (http_parser_init .HTTP_REQUEST)
    .outer ⟨noMarks, start⟩ ⟨rfl, rfl, rfl, rfl, rfl⟩
  rw [length_head, Nat.zero_add] at hscan
  exact hscan.congr ⟨fun hc => ⟨hc.2.1, hc.2.2.1, hc.1, hc.2.2.2⟩,
    fun hc => ⟨hc.size, hc.method, hc.values, hc.length⟩⟩

/-- A request that the parser does not take is an error. -/
theorem error_of_not_taken (h : Sendable r) (hsize : r.headSize < 2 ^ 32) (ht : ¬Taken r) :
    (HttpRequestParser.new.execute r.dump).1.error ≠ .OK := by
  have hread := read_head h hsize
  cases hrun : runBytes httpParserSettings1 r.head (http_parser_init .HTTP_REQUEST) .outer ⟨noMarks, start⟩ with
  | next q loop l =>
    rw [hrun] at hread
    exact (ht hread.1).elim
  | exit q adv l =>
    rw [hrun] at hread
    have hall : runBytes httpParserSettings1 r.dump (http_parser_init .HTTP_REQUEST) .outer ⟨noMarks, start⟩ =
        .exit q adv l := by rw [dump_eq, runBytes_append, hrun]
    exact execute_of_exit (dump_ne_nil r) hall hread.2

/-- A request that the parser takes is finished, and its body is read. -/
theorem execute_of_reads (h : Sendable r) (ht : Taken r) : ∃ q filed,
    (HttpRequestParser.new.execute r.dump).1 = ⟨q, .OK, ⟨r.headData.appendBody r.body, true, filed⟩⟩ := by
  have hread := read_head h (Nat.lt_of_le_of_lt ht.size (by decide))
  cases hrun : runBytes httpParserSettings1 r.head (http_parser_init .HTTP_REQUEST) .outer ⟨noMarks, start⟩ with
  | exit q adv l =>
    rw [hrun] at hread
    exact (hread.1 ht).elim
  | next q loop l =>
    rw [hrun] at hread
    obtain ⟨-, rfl, herr, hup, filed, rfl, hbody⟩ := hread
    by_cases hnil : r.body = []
    · -- without a body the message ends with its head
      have hmax : r.headView.content_length = ULLONG_MAX := by
        rw [headView, hnil]
        rfl
      have hall : runBytes httpParserSettings1 r.dump (http_parser_init .HTTP_REQUEST) .outer ⟨noMarks, start⟩ =
          .next q .outer ⟨noMarks, ⟨r.headData.appendBody r.body, true, filed⟩⟩ := by
        rw [dump_eq, hnil, List.append_nil, hrun, decide_eq_true hmax, appendBody, List.append_nil]
      exact ⟨q, filed, execute_of_next (dump_ne_nil r) hall herr hup⟩
    · have hview : r.headView =
          { r.lineView with contentlength := true, content_length := r.body.length } := if_neg (by simp [hnil])
      have hmax : r.headView.content_length ≠ ULLONG_MAX := by
        have hlength := ht.length
        have hval : ULLONG_MAX = 18446744073709551615 := by decide
        rw [hview]
        dsimp only
        omega
      obtain ⟨hs, hlength⟩ := hbody hmax
      obtain ⟨q', hrest, herr', hup'⟩ := runBytes_body fills_request (m := [])
        (t := ⟨r.headData, false, filed⟩) hnil hs (by rw [hlength, hview]) hup (mark_noMarks .body _)
      have hall : runBytes httpParserSettings1 r.dump (http_parser_init .HTTP_REQUEST) .outer ⟨noMarks, start⟩ =
          .next q' .outer ⟨noMarks, ⟨r.headData.appendBody r.body, true, filed⟩⟩ := by
        rw [dump_eq, runBytes_append, hrun, decide_eq_false hmax]
        exact hrest
      exact ⟨q', filed, execute_of_next (dump_ne_nil r) hall (herr'.trans herr) hup'⟩

/-! ### What comes back -/

/-- Headers set in turn. -/
theorem foldl_setHeader (d : HttpRequest) (es : List (Bytes × Bytes)) :
    es.foldl (fun d e => d.setHeader e.1 e.2) d =
      { d with headers := es.foldl (fun m e => OrdMap.set caseLess e.1 e.2 m) d.headers } := by
  induction es generalizing d with
  | nil => rfl
  | cons e es ih =>
    rw [List.foldl_cons, ih]
    rfl

/-- What the request line leaves, written out. -/
theorem Sendable.lineData_eq (h : Sendable r) : r.lineData = { HttpRequest.new with
    path := ((urlFields r.path r.query r.fragment).text r.url .UF_PATH).getD (str "/")
    query := ((urlFields r.path r.query r.fragment).text r.url .UF_QUERY).getD []
    fragment := ((urlFields r.path r.query r.fragment).text r.url .UF_FRAGMENT).getD [] } := by
  rw [lineData, on_request_url_cb, HttpRequest.url, parse_url_urlText h.url]
  rfl

/-- What the head leaves, written out. -/
theorem Sendable.headData_eq (h : Sendable r) : r.headData = { r.lineData with
    version := r.version
    method := r.method
    headers := r.entries.foldl (fun m e => OrdMap.set caseLess e.1 e.2 m) [] } := by
  have hversion : r.version / 16 * 16 + r.version % 16 = r.version := Nat.div_add_mod' _ _
  have hview : r.headView.http_major * 16 + r.headView.http_minor = r.version ∧
      r.headView.method = r.method := by
    unfold headView
    split <;> exact ⟨hversion, rfl⟩
  have hheaders : r.lineData.headers = [] := by rw [h.lineData_eq]; rfl
  rw [headData, foldl_setHeader, View.request, hview.1, hview.2, hheaders]

/-- **When what the parser has read is the request.** -/
theorem Sendable.readBack_iff (h : Sendable r) {q : HttpParser} {filed : Bytes} :
    ReadBack r ⟨q, .OK, ⟨r.headData.appendBody r.body, true, filed⟩⟩ ↔
      Located r.path r.query r.fragment := by
  rw [← text_iff_located (str "/")]
  have hdata : r.headData.appendBody r.body = { r.headData with body := r.body } := by
    rw [appendBody, h.headData_eq, h.lineData_eq]
    rfl
  rw [hdata, h.headData_eq, h.lineData_eq]
  constructor
  · exact fun hback => ⟨hback.path, hback.query, hback.fragment⟩
  · rintro ⟨hpath, hquery, hfragment⟩
    refine ⟨rfl, rfl, rfl, hpath, hquery, hfragment, rfl, rfl, fun x hconn hlength => ?_⟩
    refine (h.printed.mem_foldl hconn hlength).trans (h.mem_printed.trans ?_)
    exact ⟨And.left, fun hx => ⟨hx, hconn⟩⟩

/-- **When a printed request is read back.**  It is if the parser gets what it asks for; and a request
whose head is not beyond the parser's counter is read back only then. -/
theorem request_readBack (r : HttpRequest) (h : Sendable r) :
    (Readable r → ReadBack r (HttpRequestParser.new.execute r.dump).1) ∧
      (r.headSize < 2 ^ 32 → ReadBack r (HttpRequestParser.new.execute r.dump).1 → Readable r) := by
  constructor
  · intro hr
    obtain ⟨q, filed, hexec⟩ := execute_of_reads h hr.toTaken
    rw [hexec]
    exact h.readBack_iff.mpr hr.url
  · intro hsize hback
    have ht : Taken r := by
      by_contra ht
      exact error_of_not_taken h hsize ht hback.error
    obtain ⟨q, filed, hexec⟩ := execute_of_reads h ht
    rw [hexec] at hback
    exact ⟨ht, h.readBack_iff.mp hback⟩

/-- A form that is sent, with all parts of a URL and one header. -/
def postForm : HttpRequest :=
  { HttpRequest.new with
    method := .POST, path := str "/search", query := str "q=url", fragment := str "top",
    headers := [(str "Accept", str "text/plain")], body := str "title=test" }

/-- The statement at a form that is posted. -/
theorem request_readBack_postForm : Readable postForm ∧
    ReadBack postForm (HttpRequestParser.new.execute postForm.dump).1 := by
  have hsend : Sendable postForm :=
    ⟨rfl, by decide, .inr rfl, ⟨by decide, by decide +kernel, by decide +kernel, by decide +kernel⟩, by decide, rfl,
      rfl, rfl, by decide +kernel, by decide +kernel⟩
  have hread : Readable postForm :=
    ⟨⟨by decide, by decide +kernel, by decide, by decide⟩,
      located_of_length_lt (by decide) (by decide)⟩
  exact ⟨hread, (request_readBack postForm hsend).1 hread⟩

/-- **`OPTIONS` is printed as `<unknown>`**, and the parser refuses it. -/
theorem options_not_readBack : Sendable { HttpRequest.new with method := .OPTIONS } ∧
    ¬ReadBack { HttpRequest.new with method := .OPTIONS }
      (HttpRequestParser.new.execute { HttpRequest.new with method := .OPTIONS }.dump).1 := by
  refine ⟨⟨rfl, by decide, .inr rfl, ⟨by decide, by decide +kernel, nofun, nofun⟩, by decide, rfl, rfl, rfl, nofun,
    nofun⟩, fun h => ?_⟩
  exact absurd h.error (by decide)

end HttpRequest

end Http
end Wuchat
