/-
# A client and a server

What becomes of the requests of `HttpConnection` or of its pool when the other end of the
connection is an `HttpServer`.  The client prints a request, the server's parser reads it, the
servlet answers, the server prints the answer and the client's parser reads that: the
two ends share nothing but the bytes, and either may get them in many reads.

For requests and answers whose dumps can be read back the two are one call
(`exchange_answers`): every `exchange` of the client returns `OK` with the response that the
servlets made for its request, and the servlets saw the request that the client
made (`arrives_dump`), as long as neither end of the connection wants it closed before.
-/

import Wuchat.Http.Client
import Wuchat.Http.Ends
import Wuchat.Http.HttpServer

namespace Wuchat
namespace Http

open Foundation HttpParsing Streams

/-! ### What the server gets -/

/-- **The request of the client is there**: all its fields, and the headers but those that the dump itself
writes. -/
structure HttpRequest.Arrives (r got : HttpRequest) : Prop where
  method : got.method = r.method
  path : got.path = r.path
  query : got.query = r.query
  fragment : got.fragment = r.fragment
  version : got.version = r.version
  body : got.body = r.body
  close : got.close = r.close
  headers : ∀ x : Bytes × Bytes, caseFold x.1 ≠ str "connection" → caseFold x.1 ≠ str "content-length" →
    (x ∈ got.headers ↔ x ∈ r.headers)

/-- `init()` looks at the `connection` header only, and sets the flag only. -/
theorem init_eq (r : HttpRequest) : r.init = { r with close := r.init.close } := by
  unfold HttpRequest.init
  dsimp only
  split
  · rfl
  · split <;> rfl

/-- The `connection` header that the parser finds is the one that was printed. -/
theorem find_connection {r : HttpRequest} (h : r.Sendable) :
    r.headData.headers.find (str "connection") = some (if r.close then str "close" else str "keep-alive") := by
  have hfold : caseFold (str "connection") = caseFold (str "Connection") := by decide
  have hothers : ∀ e ∈ r.printed ++ r.contentLength, caseFold (str "connection") ≠ caseFold e.1 := by
    intro e he
    rw [show caseFold (str "connection") = str "connection" from by decide]
    rcases List.mem_append.mp he with he | he
    · exact Ne.symm (h.mem_printed.mp he).2
    · rw [HttpRequest.fold_of_mem_contentLength he]
      decide
  have hconn : r.connection = [(str "Connection", if r.close then str "close" else str "keep-alive")] := by
    rw [HttpRequest.connection, h.webSocket]
    rfl
  rw [h.headData_eq, HttpRequest.entries, hconn, List.append_assoc, List.singleton_append, List.foldl_cons]
  exact (OrdMap.find_foldl_set_of_ne caseLess_keyed hothers _).trans (MapType.find_set_self [] _ hfold)

/-- **The server gets the client's request.** -/
theorem arrives_dump {r : HttpRequest} (h : r.Sendable) (hr : r.Readable) : r.Arrives (requestOf r.dump) := by
  obtain ⟨q, filed, hexec⟩ := HttpRequest.execute_of_reads h hr.toTaken
  have hback : r.ReadBack ⟨q, .OK, ⟨r.headData.appendBody r.body, true, filed⟩⟩ := h.readBack_iff.mpr hr.url
  have hdata : (HttpRequestParser.execute .new r.dump).1.target.data = r.headData.appendBody r.body := by rw [hexec]
  have hclose : (r.headData.appendBody r.body).init.close = r.close := by
    have hfind : (r.headData.appendBody r.body).getHeader (str "connection") =
        if r.close then str "close" else str "keep-alive" := by
      rw [HttpRequest.getHeader, show (r.headData.appendBody r.body).headers = r.headData.headers from rfl,
        find_connection h, Option.getD_some]
    unfold HttpRequest.init
    rw [hfind]
    cases r.close
    · rfl
    · rfl
  rw [requestOf, hdata, init_eq]
  exact ⟨hback.method, hback.path, hback.query, hback.fragment, hback.version, hback.body, hclose, hback.headers⟩

/-! ### What the client gets -/

/-- **The response of the server is there**: all that a dump carries. -/
structure HttpResponse.Arrives (r got : HttpResponse) : Prop where
  version : got.version = r.version
  status : got.status = r.status
  body : got.body = r.body
  headers : ∀ x : Bytes × Bytes, caseFold x.1 ≠ str "connection" → caseFold x.1 ≠ str "content-length" →
    (x ∈ got.headers ↔ x ∈ r.headers)

/-- The response that the bytes are. -/
def responseFrom (bytes : Bytes) : HttpResponse := (HttpResponseParser.execute .new bytes).1.target.data

/-- A dumped response arrives. -/
theorem arrives_response {r : HttpResponse} (h : Sendable r) (hr : Readable r) : r.Arrives (responseFrom r.dump) := by
  have hback := readBack_of_readable h hr
  rw [responseFrom]
  exact ⟨hback.version, hback.status, hback.body, hback.headers⟩

/-- Several calls of `exchange` on one connection, as the pool makes them. -/
def exchanges (bufferSize : Nat) (peer limit : Bytes) : List HttpRequest → Act (List HttpResult)
  | [] => pure []
  | request :: requests => do
    let result ← exchange bufferSize peer limit request
    let results ← exchanges bufferSize peer limit requests
    return result :: results

/-- A request goes out, and the response to it is in the next reads. -/
theorem exchange_ok {size : Nat} {peer limit : Bytes} {request : HttpRequest} {pieces : List Bytes} {l l' : Link}
    (hcuts : Cuts size l pieces l') (hclean : CleanCuts (http_parser_init .HTTP_RESPONSE) pieces)
    (hresp : IsResponse pieces.flatten) (hwrites : ∀ io ∈ l.writes, io.Moves)
    (hlen : request.dump.length < sizeMod) (hopen : l.closed = false) :
    ∃ writes, (∀ io ∈ writes, io.Moves) ∧ exchange size peer limit request l =
      .ok ⟨.OK, str "ok", some (responseFrom pieces.flatten)⟩
        { l' with output := l.output ++ request.dump, writes := writes } := by
  obtain ⟨parts, writes, hw, hs, hmoves⟩ :=
    writeLoop_moves request.dump.length request.dump hwrites 0 request.dump.length (by omega) hlen
  have hsend : sendRequest request l =
      .ok request.dump.length { l with output := l.output ++ request.dump, writes := writes } := by
    rw [sendRequest, Link.writeFixSize, if_neg (by simp [hopen])]
    dsimp only
    rw [Streams.writeFixSize, hw]
    dsimp only
    rw [hs]
    rfl
  have hrecv := recvResponse_pieces (hcuts.write (l.output ++ request.dump) writes) hclean hresp
  have hne : request.dump.length ≠ 0 := mt List.length_eq_zero_iff.mp request.dump_ne_nil
  refine ⟨writes, hmoves, ?_⟩
  rw [exchange, Act.bind_ok hsend, if_neg hne, Act.bind_ok hrecv]
  rfl

/-! ### Both ends -/

/-- One request on a connection: the reads in which the server gets it, and those in which the client gets
the answer. -/
structure Exchanged where
  request : HttpRequest
  sent : List Bytes
  back : List Bytes

/-- The answer that the servlets make of the request. -/
def Exchanged.answer (server : HttpServer) (f : HttpRequest → HttpResponse → Int × HttpRequest × HttpResponse)
    (t : Exchanged) : HttpResponse := Http.answer server f (requestOf t.request.dump)

/-- **The turn can be read at both ends**: the dumps of the request and of its answer can, and neither is cut
where a parser would lose something. -/
structure Exchanged.Fair (server : HttpServer) (f : HttpRequest → HttpResponse → Int × HttpRequest × HttpResponse)
    (t : Exchanged) : Prop where
  sendable : t.request.Sendable
  readable : t.request.Readable
  size : t.request.dump.length < sizeMod
  sent : t.sent.flatten = t.request.dump
  sentClean : CleanCuts (http_parser_init .HTTP_REQUEST) t.sent
  answerSendable : Sendable (t.answer server f)
  answerReadable : Readable (t.answer server f)
  answerSize : (t.answer server f).dump.length < sizeMod
  back : t.back.flatten = (t.answer server f).dump
  backClean : CleanCuts (http_parser_init .HTTP_RESPONSE) t.back

section Ends

variable {fnmatch : Bytes → Bytes → Bool} {server : HttpServer}
  {f : HttpRequest → HttpResponse → Int × HttpRequest × HttpResponse}

/-- When all but the last go on, all are served. -/
theorem served_eq_self {α : Type} {p : α → Bool} {xs : List α} (h : ∀ x ∈ xs.dropLast, p x = true) :
    served p xs = xs := by
  induction xs with
  | nil => rfl
  | cons x xs ih =>
    cases xs with
    | nil => rw [served, served, ite_self]
    | cons y ys =>
      rw [List.dropLast_cons_cons] at h
      obtain ⟨hx, hrest⟩ := List.forall_mem_cons.mp h
      rw [served, hx, if_pos rfl, ih hrest]

/-- The client's calls, one after the other. -/
theorem exchanges_ok {turns : List Exchanged} (hfair : ∀ t ∈ turns, t.Fair server f) {size : Nat} {peer limit : Bytes}
    {l l' : Link} (hcuts : Cuts size l (turns.map Exchanged.back).flatten l') (hwrites : ∀ io ∈ l.writes, io.Moves)
    (hopen : l.closed = false) :
    ∃ l₂, exchanges size peer limit (turns.map Exchanged.request) l =
        .ok (turns.map fun t => ⟨.OK, str "ok", some (responseFrom (t.answer server f).dump)⟩) l₂ ∧
      l₂.output = l.output ++ turns.flatMap fun t => t.request.dump := by
  induction turns generalizing l l' with
  | nil => exact ⟨l, rfl, (List.append_nil _).symm⟩
  | cons t turns ih =>
    obtain ⟨ht, hturns⟩ := List.forall_mem_cons.mp hfair
    rw [List.map_cons, List.flatten_cons] at hcuts
    obtain ⟨l₁, hfirst, hrest⟩ := hcuts.split
    have hresp : IsResponse t.back.flatten := by
      rw [ht.back]
      exact isResponse_dump ht.answerSendable ht.answerReadable
    obtain ⟨writes, hmoves, hcall⟩ := exchange_ok hfirst ht.backClean hresp hwrites
      ht.size hopen
    obtain ⟨l₂, hcalls, hout⟩ := ih hturns (hrest.write (l.output ++ t.request.dump) writes) hmoves
      (hfirst.opened hresp.ne_nil)
    refine ⟨l₂, ?_, ?_⟩
    · rw [List.map_cons, exchanges, Act.bind_ok hcall, Act.bind_ok hcalls, ht.back]
      rfl
    · rw [hout, List.flatMap_cons, List.append_assoc]

/-- **A client and a server on one connection.**  The servlets only fill in what they get, every turn can
be read at both ends, and the connection goes on after every turn but perhaps the last.  Then, in whatever
reads the bytes come: the server sends exactly the answers to the client's requests, in order, and closes; the
client's calls all return `OK`, each with the answer to its own request; and what one end reads is what the
other has written. -/
theorem exchange_answers (hf : Computes (server.m_dispatch.handle fnmatch) f) {turns : List Exchanged}
    (hfair : ∀ t ∈ turns, t.Fair server f)
    (hgo : ∀ t ∈ turns.dropLast, goesOn server f (requestOf t.request.dump) = true)
    {size size' : Nat} {peer limit : Bytes} {sl sl' sl'' cl cl' : Link}
    (hsl : Cuts size sl (turns.map Exchanged.sent).flatten sl') (hend : Link.read size sl' = .ok (some []) sl'')
    (hsw : ∀ io ∈ sl.writes, io.Moves)
    (hcl : Cuts size' cl (turns.map Exchanged.back).flatten cl') (hcw : ∀ io ∈ cl.writes, io.Moves)
    (hcopen : cl.closed = false) :
    ∃ sl₂ cl₂,
      handleClient fnmatch server size sl = .ok () sl₂ ∧ sl₂.closed = true ∧
      sl₂.output = sl.output ++ (turns.map Exchanged.back).flatten.flatten ∧
      exchanges size' peer limit (turns.map Exchanged.request) cl =
        .ok (turns.map fun t => ⟨.OK, str "ok", some (responseFrom (t.answer server f).dump)⟩) cl₂ ∧
      cl₂.output = cl.output ++ (turns.map Exchanged.sent).flatten.flatten ∧
      ∀ t ∈ turns, t.request.Arrives (requestOf t.request.dump) ∧
        (t.answer server f).Arrives (responseFrom (t.answer server f).dump) := by
  have hclean : ∀ pieces ∈ turns.map Exchanged.sent, CleanCuts (http_parser_init .HTTP_REQUEST) pieces := by
    intro pieces hmem
    obtain ⟨t, ht, rfl⟩ := List.mem_map.mp hmem
    exact (hfair t ht).sentClean
  have hreq : ∀ pieces ∈ turns.map Exchanged.sent, IsRequest pieces.flatten := by
    intro pieces hmem
    obtain ⟨t, ht, rfl⟩ := List.mem_map.mp hmem
    rw [(hfair t ht).sent]
    exact HttpRequest.isRequest_dump (hfair t ht).sendable (hfair t ht).readable.toTaken
  have hlen : ∀ pieces ∈ turns.map Exchanged.sent,
      (Http.answer server f (requestOf pieces.flatten)).dump.length < sizeMod := by
    intro pieces hmem
    obtain ⟨t, ht, rfl⟩ := List.mem_map.mp hmem
    rw [(hfair t ht).sent]
    exact (hfair t ht).answerSize
  obtain ⟨sl₂, hserver, hsent⟩ := handleClientLoop_answers hf (requests_lt_fuel hsl hreq) hsl hend hclean hreq hsw
    hlen
  obtain ⟨cl₂, hclient, hwritten⟩ := exchanges_ok hfair hcl hcw hcopen
  have hrequests : (turns.map Exchanged.sent).map (fun pieces => requestOf pieces.flatten) =
      turns.map fun t => requestOf t.request.dump := by
    rw [List.map_map]
    exact List.map_congr_left fun t ht => congrArg requestOf (hfair t ht).sent
  have hserved : served (goesOn server f) (turns.map fun t => requestOf t.request.dump) =
      turns.map fun t => requestOf t.request.dump := by
    refine served_eq_self fun req hmem => ?_
    rw [← List.map_dropLast] at hmem
    obtain ⟨t, ht, rfl⟩ := List.mem_map.mp hmem
    exact hgo t ht
  refine ⟨{ sl₂ with closed := true }, cl₂, handleClient_of_loop hserver, rfl, ?_, hclient, ?_, fun t ht => ?_⟩
  · dsimp only
    rw [hsent, hrequests, hserved, List.flatMap_map, List.flatMap, List.flatten_flatten, List.map_map]
    refine congrArg (fun xs => sl.output ++ List.flatten xs) ?_
    exact List.map_congr_left fun t ht => ((hfair t ht).back).symm
  · rw [hwritten, List.flatMap, List.flatten_flatten, List.map_map]
    refine congrArg (fun xs => cl.output ++ List.flatten xs) ?_
    exact List.map_congr_left fun t ht => ((hfair t ht).sent).symm
  · exact ⟨arrives_dump (hfair t ht).sendable (hfair t ht).readable,
      arrives_response (hfair t ht).answerSendable (hfair t ht).answerReadable⟩

end Ends

/-- A servlet that fills in a body. -/
def fillOk (request : HttpRequest) (response : HttpResponse) : Int × HttpRequest × HttpResponse :=
  (0, request, { response with body := str "ok" })

/-- A server that has it for every path. -/
def okServer : HttpServer := ⟨true, str "luwu", .new fun request response => pure (fillOk request response)⟩

/-- A request of a pool; each end gets what the other sends in two reads. -/
def firstTurn : Exchanged where
  request := requestOfPool (str "localhost") [] .GET (str "/a") [(str "Accept", str "*/*")] []
  sent := [str "GET /a HTTP/1.1\r\nConnection: keep-alive\r\n", str "Accept: */*\r\nHost: localhost\r\n\r\n"]
  back := [str "HTTP/1.1 200 OK\r\nconnection: keep-alive\r\nServer: luwu\r\n", str "content-length: 2\r\n\r\nok"]

/-- A request that closes the connection. -/
def secondTurn : Exchanged where
  request := { HttpRequest.new with
    method := .POST, path := str "/b", query := str "q=url", headers := [(str "Accept", str "text/plain")],
    body := str "title=test" }
  sent := [str "POST /b?q=url HTTP/1.1\r\nConnection: close\r\nAccept: text/plain\r\ncontent-length: 10\r\n\r\ntitle",
    str "=test"]
  back := [str "HTTP/1.1 200 OK\r\nconnection: close\r\nServer: luwu\r\ncontent-length: 2\r\n\r\nok"]

/-- The first turn of the example. -/
theorem fair_firstTurn : firstTurn.Fair okServer fillOk where
  sendable := ⟨rfl, by decide, .inr rfl, ⟨by decide, by decide +kernel, by decide +kernel, by decide +kernel⟩,
    by decide,
    rfl, rfl, rfl, by decide +kernel, by decide +kernel⟩
  readable := ⟨⟨by decide, by decide +kernel, by decide, by decide⟩,
    located_of_length_lt (by decide) (by decide)⟩
  size := by decide
  sent := by decide
  sentClean := by decide
  answerSendable := ⟨by decide, by decide, by decide, by decide, by decide,
    by decide +kernel, by decide +kernel⟩
  answerReadable := ⟨by decide, by decide, by decide, by decide, by decide +kernel,
    by decide +kernel, by decide⟩
  answerSize := by decide +kernel
  back := by decide +kernel
  backClean := by decide

/-- The second one. -/
theorem fair_secondTurn : secondTurn.Fair okServer fillOk where
  sendable := ⟨rfl, by decide, .inr rfl, ⟨by decide, by decide +kernel, by decide +kernel, by decide +kernel⟩,
    by decide,
    rfl, rfl, rfl, by decide +kernel, by decide +kernel⟩
  readable := ⟨⟨by decide, by decide +kernel, by decide, by decide⟩,
    located_of_length_lt (by decide) (by decide)⟩
  size := by decide
  sent := by decide
  sentClean := by decide
  answerSendable := ⟨by decide, by decide, by decide, by decide, by decide,
    by decide +kernel, by decide +kernel⟩
  answerReadable := ⟨by decide, by decide +kernel, by decide, by decide, by decide +kernel,
    by decide +kernel, by decide⟩
  answerSize := by decide +kernel
  back := by decide +kernel
  backClean := by decide

/-- A stream that gets the pieces, one a read. -/
def piecesLink (pieces : List Bytes) : Link where
  input := pieces.flatten
  reads := pieces.map fun data => .count data.length
  output := []
  writes := [.count 10]
  closed := false

/-- The statement at two turns over one connection. -/
theorem exchange_answers_twoTurns : ∃ sl₂ cl₂,
    handleClient (· == ·) okServer 4096 (piecesLink ([firstTurn, secondTurn].map Exchanged.sent).flatten) = .ok () sl₂ ∧
    sl₂.closed = true ∧
    sl₂.output = (piecesLink ([firstTurn, secondTurn].map Exchanged.sent).flatten).output ++
      ([firstTurn, secondTurn].map Exchanged.back).flatten.flatten ∧
    exchanges 4096 (str "127.0.0.1:8020") (str " timeout:1000") ([firstTurn, secondTurn].map Exchanged.request)
        (piecesLink ([firstTurn, secondTurn].map Exchanged.back).flatten) =
      .ok ([firstTurn, secondTurn].map fun t =>
        ⟨.OK, str "ok", some (responseFrom (t.answer okServer fillOk).dump)⟩) cl₂ ∧
    cl₂.output = (piecesLink ([firstTurn, secondTurn].map Exchanged.back).flatten).output ++
      ([firstTurn, secondTurn].map Exchanged.sent).flatten.flatten ∧
    ∀ t ∈ [firstTurn, secondTurn], t.request.Arrives (requestOf t.request.dump) ∧
      (t.answer okServer fillOk).Arrives (responseFrom (t.answer okServer fillOk).dump) :=
  exchange_answers (f := fillOk) (fun _ _ _ => rfl)
    (List.forall_mem_cons.mpr ⟨fair_firstTurn, List.forall_mem_cons.mpr ⟨fair_secondTurn, by simp⟩⟩)
    (by decide +kernel) (cuts_pieces (piecesLink []) rfl (by decide)) rfl (by decide)
    (cuts_pieces (piecesLink []) rfl (by decide)) (by decide) rfl

end Http
end Wuchat
