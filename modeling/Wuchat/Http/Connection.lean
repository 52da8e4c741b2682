/-
# Responses that end with the connection

`http/http_connection.cpp`: `HttpConnection::recvResponse` reads until its parser has
finished a message, and takes a read of nothing for an error.

A response with neither a length nor chunks goes on until its peer closes the
connection.  `http_parser` is told so by a call with no data, which `recvResponse`
never makes: it closes the stream and returns nothing, however the response came
in (`recvResponse_eofDelimited`).  The responses meant are those that the vendored
parser finishes at such a call (`EofDelimited`), and every response whose head has
no length is one (`eofDelimited_head`).
-/

import Wuchat.Http.Session
import Wuchat.Http.ResponseDump
import Wuchat.HttpParser.Callbacks

namespace Wuchat
namespace Http

open Foundation HttpParsing Streams

/-! ### `HttpConnection` -/

/-- The loop of `recvResponse`, for as many turns as there is fuel.  `data` holds the `offset` bytes at
the start of the buffer; a read of `-1` makes the parser run out of it. -/
def recvResponseLoop (bufferSize : Nat) : Nat → HttpResponseParser → Bytes → Act (Option HttpResponse)
  | 0, _, _ => fun _ => .hang
  | fuel + 1, parser, data => do
    match ← Link.read (bufferSize - data.length) with
    | none => fault
    | some got =>
      if got = [] then
        Link.close
        return none
      else
        let (parser, nparse, moved) := parser.execute (data ++ got)
        let offset := (data ++ got).length - nparse
        if parser.error ≠ .OK then
          Link.close
          return none
        else if offset = bufferSize then
          Link.close
          return none
        else if parser.target.finished then
          return some parser.target.data
        else recvResponseLoop bufferSize fuel parser (moved.take offset)

/-- `recvResponse` is the common loop. -/
theorem recvResponseLoop_eq (bufferSize fuel : Nat) (r : HttpResponseParser) (data : Bytes) :
    recvResponseLoop bufferSize fuel r data =
      receiveLoop HttpResponseParser.execute id bufferSize fuel r data := by
  induction fuel generalizing r data with
  | zero => rfl
  | succ fuel ih =>
    have hloop : recvResponseLoop bufferSize fuel = receiveLoop HttpResponseParser.execute id bufferSize fuel :=
      funext fun r => funext fun data => ih r data
    unfold recvResponseLoop receiveLoop
    exact hloop ▸ rfl

/-- `HttpConnection::recvResponse()`.  Every turn takes a byte at least. -/
def recvResponse (bufferSize : Nat) : Act (Option HttpResponse) := fun l =>
  recvResponseLoop bufferSize (l.input.length + 1) .new [] l

/-! ### Responses without a length -/

/-- **The bytes of a response that ends with its connection**: a parser has no error on them and has
not finished after them, it has after a call with no data, and no other protocol follows. -/
structure EofDelimited (bytes : Bytes) : Prop where
  ok : (HttpResponseParser.execute .new bytes).1.error = .OK
  unfinished : (HttpResponseParser.execute .new bytes).1.target.finished = false
  plain : (HttpResponseParser.execute .new bytes).1.parser.upgrade = false
  ended : (HttpResponseParser.execute (HttpResponseParser.execute .new bytes).1 []).1.target.finished = true

/-- The response that the bytes are, when the connection ends after them. -/
def responseOf (bytes : Bytes) : HttpResponse :=
  (HttpResponseParser.execute (HttpResponseParser.execute .new bytes).1 []).1.target.data

namespace HttpResponseParser

/-- A finished message stays finished. -/
theorem finished_steps : httpParserSettings2.Steps fun t t' => t.finished = true → t'.finished = true where
  refl _ h := h
  trans h₁ h₂ h := h₂ (h₁ h)
  notify n _ t h := by
    cases n with
    | message_complete => rfl
    | message_begin | chunk_header | chunk_complete => exact h
  headersComplete _ _ h := h
  data m _ _ _ h := by cases m <;> exact h

/-- A finished response stays finished. -/
theorem finished_execute {r : HttpResponseParser} (h : r.target.finished = true) (data : Bytes) :
    (execute r data).1.target.finished = true := by
  rw [execute_fst]
  exact execute_steps finished_steps data r.target h

/-- So it does over several reads. -/
theorem finished_feedAll {r : HttpResponseParser} (h : r.target.finished = true) (pieces : List Bytes) :
    (feedAll execute r pieces).target.finished = true := by
  induction pieces generalizing r with
  | nil => exact h
  | cons data pieces ih => exact ih (finished_execute h data)

end HttpResponseParser

section Turns

variable {pieces : List Bytes} (hpieces : ∀ data ∈ pieces, data ≠ [])
  (hclean : CleanCuts (http_parser_init .HTTP_RESPONSE) pieces) (hresp : EofDelimited pieces.flatten)
include hpieces hclean hresp

omit hpieces hclean in
/-- A response has a read at least. -/
theorem EofDelimited.ne_nil : pieces ≠ [] := by
  rintro rfl
  exact absurd hresp.ended (by decide)

/-- After none of its pieces the response is finished. -/
theorem feed_response_unfinished (k : Nat) :
    (feedAll HttpResponseParser.execute HttpResponseParser.new (pieces.take k)).target.finished = false := by
  rw [← Bool.not_eq_true]
  intro h
  have hall := HttpResponseParser.finished_feedAll h (pieces.drop k)
  rw [feedAll, feedAll, ← List.foldl_append, List.take_append_drop, ← feedAll,
    feedAll_eq HttpResponseParser.execute_execute hpieces hclean hresp.ne_nil, hresp.unfinished] at hall
  cases hall

/-- No other protocol is asked for on the way, or it would be in the end. -/
theorem feed_response_plain {k : Nat} (hk : k ≤ pieces.length) :
    (feedAll HttpResponseParser.execute HttpResponseParser.new (pieces.take k)).parser.upgrade = false :=
  wraps_response.feedAll_plain HttpResponseParser.execute_execute hpieces hclean httpParserSettings2_cuttable rfl
    hresp.ok hresp.ne_nil hresp.plain hk

/-- **The turns of `recvResponse` on the pieces of such a response** go on to the end of the
connection, and then there is nothing to return. -/
theorem receiveLoop_response {size : Nat} {fuel k : Nat} {l l' l'' : Link} (hk : k ≤ pieces.length)
    (hfuel : pieces.length < k + fuel) (hcuts : Cuts size l (pieces.drop k) l')
    (hclosed : Link.read size l' = .ok (some []) l'') :
    receiveLoop HttpResponseParser.execute id size fuel
        (feedAll HttpResponseParser.execute HttpResponseParser.new (pieces.take k)) [] l =
      .ok none { l'' with closed := true } := by
  induction fuel generalizing k l with
  | zero => omega
  | succ fuel ih =>
    rcases Nat.eq_or_lt_of_le hk with rfl | hk
    · rw [List.drop_length] at hcuts
      cases hcuts
      have hread' : Link.read (size - ([] : Bytes).length) l' = .ok (some []) l'' := hclosed
      rw [receiveLoop, Act.bind_ok hread']
      rfl
    · rw [List.drop_eq_getElem_cons hk] at hcuts
      cases hcuts with
      | @cons _ l₁ _ _ _ hread hne hrest =>
        have hok := wraps_response.feedAll_take_ok HttpResponseParser.execute_execute hpieces hclean hresp.ok
          hresp.ne_nil (k + 1)
        have hparsed := wraps_response.feedAll_parsed HttpResponseParser.execute_execute hpieces hclean
          httpParserSettings2_cuttable rfl hresp.ok hk (feed_response_plain hpieces hclean hresp hk)
        rw [← feedAll_next _ hk] at hok
        rw [receiveLoop_turn hread hne hok hparsed, feedAll_next _ hk,
          feed_response_unfinished hpieces hclean hresp, if_neg Bool.false_ne_true]
        exact ih hk (by omega) hrest

end Turns

/-- **A response that ends with its connection is never returned**: in whatever pieces it came, when
the peer has closed `recvResponse` closes the stream and returns nothing. -/
theorem recvResponse_eofDelimited {size : Nat} {pieces : List Bytes} {l l' l'' : Link}
    (hcuts : Cuts size l pieces l') (hclean : CleanCuts (http_parser_init .HTTP_RESPONSE) pieces)
    (hresp : EofDelimited pieces.flatten) (hclosed : Link.read size l' = .ok (some []) l'') :
    recvResponse size l = .ok none { l'' with closed := true } ∧
      ¬ ∃ l₁, recvResponse size l = .ok (some (responseOf pieces.flatten)) l₁ := by
  have hlen := hcuts.length_le
  have hnone : recvResponse size l = .ok none { l'' with closed := true } := by
    rw [recvResponse, recvResponseLoop_eq]
    exact receiveLoop_response hcuts.ne_nil hclean hresp (k := 0) (Nat.zero_le _) (by omega) hcuts hclosed
  refine ⟨hnone, ?_⟩
  rintro ⟨l₁, h⟩
  rw [hnone] at h
  cases h

/-- A response without a length, cut in its body. -/
def openPieces : List Bytes := [str "HTTP/1.1 200 OK\r\nServer: luwu\r\n\r\nhel", str "lo"]

/-- A stream that hands it out so, and then ends. -/
def openLink : Link where
  input := openPieces.flatten
  reads := openPieces.map fun data => .count data.length
  output := []
  writes := []
  closed := false

/-- The stream at its end. -/
def openEnd : Link := { openLink with input := [], reads := [] }

/-- The statement at a response without a length. -/
theorem recvResponse_eofDelimited_open :
    recvResponse 4096 openLink = .ok none { openEnd with closed := true } ∧
      ¬ ∃ l₁, recvResponse 4096 openLink = .ok (some (responseOf openPieces.flatten)) l₁ := by
  have hresp : (HttpResponseParser.execute .new openPieces.flatten).1.error = .OK ∧
      (HttpResponseParser.execute .new openPieces.flatten).1.target.finished = false ∧
      (HttpResponseParser.execute .new openPieces.flatten).1.parser.upgrade = false ∧
      (HttpResponseParser.execute (HttpResponseParser.execute .new openPieces.flatten).1 []).1.target.finished =
        true := by
    decide
  have hcuts : Cuts 4096 openLink openPieces openEnd := cuts_pieces openLink rfl (by decide)
  have hclosed : Link.read 4096 openEnd = .ok (some []) openEnd := rfl
  exact recvResponse_eofDelimited hcuts (by decide)
    ⟨hresp.1, hresp.2.1, hresp.2.2.1, hresp.2.2.2⟩ hclosed

/-- The whole response is there, a call with no data would finish it, and nothing is returned. -/
theorem recvResponse_lost :
    (responseOf openPieces.flatten).body = str "hello" ∧
      (HttpResponseParser.execute (HttpResponseParser.feed .new openPieces) []).1.target.finished = true ∧
        recvResponse 4096 openLink = .ok none { openEnd with closed := true } := by
  decide

/-! ### Heads without a length -/

/-- A body up to the end of the connection is taken as it comes. -/
theorem runBytes_bodyEof {M : Type} {s : Settings (Target M)} {t : Target M} {p : HttpParser} {body m : Bytes}
    {l : Locals (Target M)} (hne : body ≠ []) (hs : p.state = .s_body_identity_eof)
    (hl : l.mark .body = ⟨onlyMark .body m, t⟩) :
    runBytes s body p .outer l = .next p .outer ⟨onlyMark .body (m ++ body), t⟩ := by
  induction body generalizing m l with
  | nil => exact (hne rfl).elim
  | cons ch rest ih =>
    have hbyte : byteProg .outer ch p = .mark .body (.next p .outer) := by
      unfold byteProg reexecute
      rw [hs]
      rfl
    rw [runBytes, hbyte]
    simp only [Prog.run, hl, push_onlyMark]
    rcases rest with _ | ⟨c, rest⟩
    · rfl
    · rw [List.append_cons m ch (c :: rest)]
      exact ih (List.cons_ne_nil _ _) (mark_onlyMark ..)

/-- What a run up to the end of the data in such a body has handed out. -/
theorem execute_bodyEof {pre body : Bytes} (hne : pre ≠ []) {q : HttpParser} {t : Target HttpResponse}
    (hrun : runBytes httpParserSettings2 pre (http_parser_init .HTTP_RESPONSE) .outer ⟨noMarks, start⟩ =
      .next q .outer ⟨noMarks, t⟩)
    (hq : q.http_errno = .OK) (hs : q.state = .s_body_identity_eof) :
    (HttpResponseParser.new.execute (pre ++ body)).1 =
      ⟨q, .OK, { t with data := t.data.appendBody body }⟩ := by
  by_cases hbody : body = []
  · rw [hbody, List.append_nil, execute_of_next hne hrun hq, HttpResponse.appendBody, List.append_nil]
  · have hall : runBytes httpParserSettings2 (pre ++ body) (http_parser_init .HTTP_RESPONSE) .outer
        ⟨noMarks, start⟩ = .next q .outer (.one .body (some body) t) := by
      rw [runBytes_append, hrun]
      exact runBytes_bodyEof hbody hs (mark_noMarks .body t)
    have hexec : http_parser_execute httpParserSettings2 HttpResponseParser.new.parser (pre ++ body)
        HttpResponseParser.new.target =
          ⟨(pre ++ body).length, q, { t with data := t.data.appendBody body }⟩ := by
      refine (execute_eq rfl startMarks_new (List.append_ne_nil_of_left_ne_nil hne body)).trans ?_
      refine (executeLoop_of_next hall).trans ?_
      rw [endOfData_body httpParserSettings2_cuttable, Nat.zero_add]
      rfl
    rw [HttpResponseParser.execute_fst, hexec]
    dsimp only
    rw [if_neg (not_not_intro hq)]
    rfl

/-- **A response whose head has no length ends with its connection**, and the bytes after the head are
its body. -/
theorem eofDelimited_head {r : HttpResponse} (h : Sendable r) (hbody : r.body = [])
    (hversion : r.version / 16 ≤ 9 ∧ r.version % 16 ≤ 9) (hstatus : r.status ≤ 999)
    (hreason : CR ∉ r.reason ∧ LF ∉ r.reason)
    (hvalues : ∀ e ∈ r.printed, ∀ ch ∈ e.2.tail, isHeaderChar ch = true) (hsize : r.headSize ≤ maxHeaderSize)
    (body : Bytes) :
    EofDelimited (head r ++ body) ∧ responseOf (head r ++ body) = (headData r).appendBody body := by
  have hread := read_head h hreason.1 hreason.2 (Nat.lt_of_le_of_lt hsize (by decide))
  have hne : head r ≠ [] := by
    rw [head, statusLine]
    simp [crlf, str]
  cases hrun : runBytes httpParserSettings2 (head r) (http_parser_init .HTTP_RESPONSE) .outer ⟨noMarks, start⟩ with
  | exit q adv l =>
    rw [hrun] at hread
    exact (hread.1 ⟨hsize, ⟨hversion, hstatus⟩, hvalues, by rw [hbody]; exact Nat.zero_le _⟩).elim
  | next q loop l =>
    rw [hrun] at hread
    obtain ⟨-, rfl, hs, herr, hup, -, filed, rfl⟩ := hread
    have hstate : q.state = .s_body_identity_eof := by
      rw [hs, headView, hbody]
      rfl
    have hexec : (HttpResponseParser.new.execute (head r ++ body)).1 =
        ⟨q, .OK, { data := (headData r).appendBody body, finished := false, filed := filed }⟩ :=
      execute_bodyEof hne hrun herr hstate
    have hlast : (HttpResponseParser.execute (HttpResponseParser.new.execute (head r ++ body)).1 []).1.target =
        ⟨(headData r).appendBody body, true, filed⟩ := by
      rw [hexec, HttpResponseParser.execute_fst, http_parser_execute, if_neg (not_not_intro herr), if_pos rfl]
      simp only [hstate]
      rfl
    refine ⟨⟨?_, ?_, ?_, ?_⟩, ?_⟩
    · rw [hexec]
    · rw [hexec]
    · rw [hexec]
      exact hup
    · rw [hlast]
    · rw [responseOf, hlast]

end Http
end Wuchat
