/-
# Requests of a connection

`http/http_session.cpp`: `HttpSession::recvRequest` reads until a parser of its own has finished a
message.  The vendored parser does not stop at the end of a message, so the bytes of the next
request that came with the same read go into the same `HttpRequest`, and what the parser
object has then is lost with it: of two requests in one read the first call
returns the second, and the second call finds nothing (`two_requests_in_one_read`).

When every read ends with a request, or before the end of one at a clean cut,
successive calls return the requests one by one, each with what its own bytes say
(`recvRequests_of_pieces`).
-/

import Wuchat.Http.Receive

namespace Wuchat
namespace Http

open Foundation HttpParsing Streams

/-! ### `HttpSession` -/

/-- The loop of `recvRequest`, for as many turns as there is fuel.  `data` holds the `offset` bytes at
the start of the buffer; a read of `-1` makes the parser run out of it. -/
def recvRequestLoop (bufferSize : Nat) : Nat → HttpRequestParser → Bytes → Act (Option HttpRequest)
  | 0, _, _ => fun _ => .hang
  | fuel + 1, parser, data => do
    match ← Link.read (bufferSize - data.length) with
    | none => fault
    | some got =>
      if got = [] then
        Link.close
        return none
      else
        let (parser, nparse, moved) := parser.execute (data ++ got)
        let offset := (data ++ got).length - nparse
        if parser.error ≠ .OK then
          Link.close
          return none
        else if offset = bufferSize then
          Link.close
          return none
        else if parser.target.finished then
          return some parser.target.data.init
        else recvRequestLoop bufferSize fuel parser (moved.take offset)

/-- `HttpSession::recvRequest()`.  Every turn takes a byte at least. -/
def recvRequest (bufferSize : Nat) : Act (Option HttpRequest) := fun l =>
  recvRequestLoop bufferSize (l.input.length + 1) .new [] l

/-- `HttpSession::sendResponse(rsp)`. -/
def sendResponse (rsp : HttpResponse) : Act Nat := Link.writeFixSize rsp.dump

/-- `recvRequest` is the common loop. -/
theorem recvRequestLoop_eq (bufferSize fuel : Nat) (r : HttpRequestParser) (data : Bytes) :
    recvRequestLoop bufferSize fuel r data =
      receiveLoop HttpRequestParser.execute HttpRequest.init bufferSize fuel r data := by
  induction fuel generalizing r data with
  | zero => rfl
  | succ fuel ih =>
    have hloop : recvRequestLoop bufferSize fuel =
        receiveLoop HttpRequestParser.execute HttpRequest.init bufferSize fuel :=
      funext fun r => funext fun data => ih r data
    unfold recvRequestLoop receiveLoop
    exact hloop ▸ rfl

/-- As many calls of `recvRequest`, one after the other. -/
def recvRequests (bufferSize : Nat) : Nat → Act (List (Option HttpRequest))
  | 0 => pure []
  | n + 1 => do
    let req ← recvRequest bufferSize
    let reqs ← recvRequests bufferSize n
    return req :: reqs

/-! ### Requests and reads -/

/-- **The bytes of one request**: a parser has no error on them and has finished after the last of them, not
before. -/
structure IsRequest (bytes : Bytes) : Prop where
  ok : (HttpRequestParser.execute .new bytes).1.error = .OK
  finished : (HttpRequestParser.execute .new bytes).1.target.finished = true
  last : ∀ k < bytes.length, (HttpRequestParser.execute .new (bytes.take k)).1.target.finished = false

/-- The request that the bytes are. -/
def requestOf (bytes : Bytes) : HttpRequest := (HttpRequestParser.execute .new bytes).1.target.data.init

/-- The next reads of at most `size` bytes get the pieces. -/
inductive Cuts (size : Nat) : Link → List Bytes → Link → Prop
  | nil (l : Link) : Cuts size l [] l
  | cons {l l' l'' : Link} {data : Bytes} {pieces : List Bytes} :
      Link.read size l = .ok (some data) l' → data ≠ [] → Cuts size l' pieces l'' →
      Cuts size l (data :: pieces) l''

/-- An open stream with a count for every piece hands the pieces out. -/
theorem cuts_pieces (l : Link) (hopen : l.closed = false) {size : Nat} {pieces : List Bytes}
    (hpieces : ∀ data ∈ pieces, data ≠ [] ∧ data.length ≤ size) :
    Cuts size { l with input := pieces.flatten, reads := pieces.map fun data => .count data.length } pieces
      { l with input := [], reads := [] } := by
  induction pieces with
  | nil => exact .nil _
  | cons data pieces ih =>
    obtain ⟨⟨hne, hle⟩, hrest⟩ := List.forall_mem_cons.mp hpieces
    refine .cons ?_ hne (ih hrest)
    simp [Link.read, hopen, Nat.min_eq_left hle]

/-- There are at most as many reads as bytes. -/
theorem Cuts.length_le {size : Nat} {l l' : Link} {pieces : List Bytes} (h : Cuts size l pieces l') :
    pieces.length + l'.input.length ≤ l.input.length := by
  induction h with
  | nil => exact Nat.le_of_eq (Nat.zero_add _)
  | @cons l l₁ l₂ data pieces hread hne _ ih =>
    have hlen : 0 < data.length := List.length_pos_iff.mpr hne
    rw [(read_bytes hread).2, List.length_append, List.length_cons]
    omega

/-- The reads for two lists of pieces are those for one and then those for the other. -/
theorem Cuts.split {size : Nat} {l l' : Link} {pieces more : List Bytes} (h : Cuts size l (pieces ++ more) l') :
    ∃ l₁, Cuts size l pieces l₁ ∧ Cuts size l₁ more l' := by
  induction pieces generalizing l with
  | nil => exact ⟨l, .nil l, h⟩
  | cons data pieces ih =>
    cases h with
    | cons hread hne hrest =>
      obtain ⟨l₁, h₁, h₂⟩ := ih hrest
      exact ⟨l₁, .cons hread hne h₁, h₂⟩

/-- No read is empty. -/
theorem Cuts.ne_nil {size : Nat} {l l' : Link} {pieces : List Bytes} (h : Cuts size l pieces l') :
    ∀ data ∈ pieces, data ≠ [] := by
  induction h with
  | nil => nofun
  | cons _ hne _ ih =>
    intro data hmem
    rcases List.mem_cons.mp hmem with rfl | hmem
    · exact hne
    · exact ih data hmem

/-! ### The turns of a call -/

/-- A call without an error had none before, and the vendored parser has none either. -/
theorem HttpRequestParser.ok_of_execute {r : HttpRequestParser} {data : Bytes} (h : (execute r data).1.error = .OK) :
    r.error = .OK ∧ (execute r data).1.parser.upgrade = false ∧ (execute r data).1.parser.http_errno = .OK := by
  obtain ⟨hbefore, hstops⟩ := (wraps_request.error r data).mp h
  have herrno := wraps_request.errno _ hstops
  rw [requestStops, Bool.or_eq_false_iff] at hstops
  exact ⟨hbefore, hstops.1, herrno⟩

section Turns

variable {pieces : List Bytes} (hpieces : ∀ data ∈ pieces, data ≠ [])
  (hclean : CleanCuts (http_parser_init .HTTP_REQUEST) pieces) (hreq : IsRequest pieces.flatten)
include hpieces hclean hreq

/-- The request is finished after its last piece, and not before. -/
theorem feed_take_finished {k : Nat} (hk : k < pieces.length) :
    (feedAll HttpRequestParser.execute HttpRequestParser.new (pieces.take (k + 1))).target.finished =
      decide (k + 1 = pieces.length) := by
  rw [feedAll_take_succ HttpRequestParser.execute_execute hpieces hclean hk]
  by_cases hlast : k + 1 = pieces.length
  · rw [hlast, List.take_length, decide_eq_true rfl]
    exact hreq.finished
  · rw [decide_eq_false hlast]
    have hdrop : (pieces.drop (k + 1)).flatten ≠ [] := by
      refine flatten_ne_nil (fun data h => hpieces data (List.mem_of_mem_drop h)) ?_
      exact List.ne_nil_of_length_pos (by rw [List.length_drop]; omega)
    have hsplit : pieces.flatten = (pieces.take (k + 1)).flatten ++ (pieces.drop (k + 1)).flatten := by
      rw [← List.flatten_append, List.take_append_drop]
    have hbefore := hreq.last (pieces.take (k + 1)).flatten.length (by
      rw [hsplit, List.length_append]
      exact Nat.lt_add_of_pos_right (List.length_pos_iff.mpr hdrop))
    rwa [hsplit, List.take_left] at hbefore

/-- **The turns of `recvRequest` on the pieces of one request.** -/
theorem receiveLoop_request {size : Nat} {fuel k : Nat} {l l' : Link} (hk : k < pieces.length)
    (hfuel : pieces.length ≤ k + fuel) (hcuts : Cuts size l (pieces.drop k) l') :
    receiveLoop HttpRequestParser.execute HttpRequest.init size fuel
        (feedAll HttpRequestParser.execute HttpRequestParser.new (pieces.take k)) [] l =
      .ok (some (requestOf pieces.flatten)) l' := by
  induction fuel generalizing k l with
  | zero => omega
  | succ fuel ih =>
    rw [List.drop_eq_getElem_cons hk] at hcuts
    cases hcuts with
    | @cons _ l₁ _ _ _ hread hne hrest =>
      have hpos : pieces ≠ [] := List.ne_nil_of_length_pos (Nat.zero_lt_of_lt hk)
      have hok := wraps_request.feedAll_take_ok HttpRequestParser.execute_execute hpieces hclean hreq.ok hpos (k + 1)
      rw [← feedAll_next _ hk] at hok
      obtain ⟨-, hup, -⟩ := HttpRequestParser.ok_of_execute hok
      rw [feedAll_next _ hk] at hup
      have hparsed := wraps_request.feedAll_parsed HttpRequestParser.execute_execute hpieces hclean
        httpParserSettings1_cuttable rfl hreq.ok hk hup
      rw [receiveLoop_turn hread hne hok hparsed, feedAll_next _ hk, feed_take_finished hpieces hclean hreq hk]
      by_cases hlast : k + 1 = pieces.length
      · rw [if_pos (decide_eq_true hlast), feedAll_take_succ HttpRequestParser.execute_execute hpieces hclean hk,
          hlast, List.take_length]
        rw [hlast, List.drop_length] at hrest
        cases hrest
        rfl
      · rw [if_neg (by simpa using hlast)]
        exact ih (by omega) (by omega) hrest

end Turns

/-- A call of `recvRequest` on the pieces of one request returns it. -/
theorem recvRequest_pieces {size : Nat} {pieces : List Bytes} {l l' : Link} (hcuts : Cuts size l pieces l')
    (hclean : CleanCuts (http_parser_init .HTTP_REQUEST) pieces) (hreq : IsRequest pieces.flatten) :
    recvRequest size l = .ok (some (requestOf pieces.flatten)) l' := by
  have hlen := hcuts.length_le
  have hpos : 0 < pieces.length := by
    refine List.length_pos_iff.mpr fun hnil => ?_
    have hfin := hreq.finished
    rw [hnil] at hfin
    exact absurd hfin (by decide)
  rw [recvRequest, recvRequestLoop_eq]
  exact receiveLoop_request hcuts.ne_nil hclean hreq (k := 0) hpos (by omega) hcuts

/-- **Successive calls of `recvRequest` return the requests**, in order, each once and with what its own
bytes say, when every read ends with a request or at a clean cut within one. -/
theorem recvRequests_of_pieces (size : Nat) (requests : List (List Bytes)) (l l' : Link)
    (hcuts : Cuts size l requests.flatten l')
    (hclean : ∀ pieces ∈ requests, CleanCuts (http_parser_init .HTTP_REQUEST) pieces)
    (hreq : ∀ pieces ∈ requests, IsRequest pieces.flatten) :
    recvRequests size requests.length l =
      .ok (requests.map fun pieces => some (requestOf pieces.flatten)) l' := by
  induction requests generalizing l with
  | nil =>
    cases hcuts
    rfl
  | cons pieces requests ih =>
    rw [List.flatten_cons] at hcuts
    obtain ⟨l₁, hfirst, hrest⟩ := hcuts.split
    have hcall := recvRequest_pieces hfirst (hclean pieces List.mem_cons_self) (hreq pieces List.mem_cons_self)
    have hcalls := ih l₁ hrest (fun g hg => hclean g (List.mem_cons_of_mem _ hg))
      fun g hg => hreq g (List.mem_cons_of_mem _ hg)
    rw [List.length_cons, recvRequests, Act.bind_ok hcall, Act.bind_ok hcalls]
    rfl

/-- Two requests in two reads each. -/
def postThenGet : List (List Bytes) :=
  [[str "POST /a HTTP/1.1\r\nContent-Length: 2\r\n\r\nx", str "y"],
    [str "GET /b HTTP/1.1\r\nConnection:", str " keep-alive\r\n\r\n"]]

/-- A stream that hands them out so. -/
def postThenGetLink : Link where
  input := postThenGet.flatten.flatten
  reads := postThenGet.flatten.map fun data => .count data.length
  output := []
  writes := []
  closed := false

/-- The statement at two requests. -/
theorem recvRequests_of_pieces_postThenGet :
    recvRequests 4096 2 postThenGetLink =
      .ok (postThenGet.map fun pieces => some (requestOf pieces.flatten))
        { postThenGetLink with input := [], reads := [] } :=
  recvRequests_of_pieces 4096 postThenGet postThenGetLink _
    (cuts_pieces postThenGetLink rfl (by decide)) (by decide)
    (List.forall_mem_cons.mpr ⟨⟨by decide, by decide, by decide⟩,
      List.forall_mem_cons.mpr ⟨⟨by decide, by decide, by decide⟩, nofun⟩⟩)

/-- A request that keeps the connection. -/
def keepAliveGet (path : String) : Bytes :=
  str "GET " ++ str path ++ str " HTTP/1.1\r\nConnection: keep-alive\r\n\r\n"

/-- **Two requests in one read**: the first call returns the second of them, and the second call
nothing. -/
theorem two_requests_in_one_read :
    IsRequest (keepAliveGet "/a") ∧ IsRequest (keepAliveGet "/b") ∧
      recvRequests 4096 2 ⟨keepAliveGet "/a" ++ keepAliveGet "/b", [], [], [], false⟩ =
        .ok [some (requestOf (keepAliveGet "/b")), none] ⟨[], [], [], [], true⟩ ∧
      requestOf (keepAliveGet "/a") ≠ requestOf (keepAliveGet "/b") := by
  refine ⟨⟨?_, ?_, ?_⟩, ⟨?_, ?_, ?_⟩, ?_, ?_⟩ <;> decide +kernel

end Http
end Wuchat
