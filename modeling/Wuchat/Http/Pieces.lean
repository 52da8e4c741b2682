/-
# Messages in pieces

A connection may hand the bytes of a message to `HttpRequestParser::execute` or
`HttpResponseParser::execute` in any pieces.  The body callbacks append, so a body may be cut
anywhere.  The callbacks of the URL, of header names and of header values take what they get for the whole
element: cut `GET /ab` after the `a`, and `b` alone is parsed as a URL and refused
(`url_cut_refused`).

With clean cuts (`CleanCuts`) the pieces give what the whole message gives: the same error,
the same flag, the same request or response (`feed_eq_execute`).
-/

import Wuchat.HttpParser.Cuts
import Wuchat.Http.RequestParser

namespace Wuchat
namespace Http

open Foundation HttpParsing

/-- **No cut between the pieces lies in a URL, a header name or a header value**, nor in what an
error loses; `p` is the parser at the start. -/
def CleanCuts (p : HttpParser) (pieces : List Bytes) : Prop :=
  ∀ k < pieces.length, 0 < k → cleanCut p (pieces.take k).flatten (pieces.drop k).flatten = true

/-- Whether every cut is clean can be computed. -/
instance (p : HttpParser) (pieces : List Bytes) : Decidable (CleanCuts p pieces) :=
  inferInstanceAs (Decidable (∀ k < pieces.length, _))

/-- The request callbacks cannot tell where a body is cut. -/
theorem httpParserSettings1_cuttable : httpParserSettings1.Cuttable where
  headersComplete _ _ := rfl
  body_ok _ _ _ := rfl
  body_any _ _ _ _ := rfl
  body_append _ _ bs cs a := by
    simp [httpParserSettings1, on_request_data_cb, HttpRequest.appendBody]
  status_ok _ _ _ := rfl
  status_last _ _ _ _ _ _ := rfl

/-- The response callbacks cannot tell where a body or a reason phrase is cut. -/
theorem httpParserSettings2_cuttable : httpParserSettings2.Cuttable where
  headersComplete _ _ := rfl
  body_ok _ _ _ := rfl
  body_any _ _ _ _ := rfl
  body_append _ _ bs cs a := by
    simp [httpParserSettings2, on_response_data_cb, HttpResponse.appendBody]
  status_ok _ _ _ := rfl
  status_last _ _ _ _ _ _ := rfl

/-! ### Two pieces -/

namespace HttpRequestParser

/-- One piece after the other. -/
def feed (r : HttpRequestParser) (pieces : List Bytes) : HttpRequestParser :=
  pieces.foldl (fun r data => (execute r data).1) r

/-- What a call makes of the fields, by the vendored parser's. -/
theorem execute_fst (r : HttpRequestParser) (data : Bytes) :
    (execute r data).1 =
      let e := http_parser_execute httpParserSettings1 r.parser data r.target
      ⟨e.parser, if e.parser.upgrade then .UNKNOWN
        else if e.parser.http_errno ≠ .OK then e.parser.http_errno else r.error, e.app⟩ := by
  unfold execute
  dsimp only
  split
  · rfl
  split <;> rfl

/-- Two pieces with a clean cut between them are one. -/
theorem execute_execute {pre data : Bytes} (hpre : pre ≠ []) (hdata : data ≠ [])
    (hclean : cleanCut (http_parser_init .HTTP_REQUEST) pre data = true) :
    (execute (execute new pre).1 data).1 = (execute new (pre ++ data)).1 := by
  have hcut := httpParserSettings1_cuttable
  have hb := between_init .HTTP_REQUEST
  obtain ⟨hparser, happ⟩ := execute_append hcut hb hpre hdata hclean new.target
  have hbetween := execute_between hcut hb hpre hdata hclean new.target
  simp only [execute_fst, new] at hparser happ hbetween ⊢
  rw [← hparser, ← happ]
  generalize http_parser_execute httpParserSettings1 (http_parser_init .HTTP_REQUEST) pre
    ⟨.new, false, []⟩ = e at *
  -- an error of the first call, or an upgrade it found, is there after the second call too
  have hkeep : ∀ e', http_parser_execute httpParserSettings1 e.parser data e.app = e' →
      (e.parser.http_errno ≠ .OK → e'.parser = e.parser) ∧
      (e.parser.http_errno = .OK → e.parser.upgrade = true → e'.parser.upgrade = true) := by
    rintro e' rfl
    refine ⟨fun h => ?_, fun h hup => ?_⟩
    · rw [execute_of_error h]
    · exact execute_upgrade (hbetween h) hdata _ hup
  generalize http_parser_execute httpParserSettings1 e.parser data e.app = e' at *
  obtain ⟨h₁, h₂⟩ := hkeep e' rfl
  by_cases herr : e.parser.http_errno = .OK
  · by_cases hup : e.parser.upgrade = true
    · simp [h₂ herr hup]
    · simp [herr, hup]
  · simp [h₁ herr, herr]

end HttpRequestParser

namespace HttpResponseParser

/-- One piece after the other. -/
def feed (r : HttpResponseParser) (pieces : List Bytes) : HttpResponseParser :=
  pieces.foldl (fun r data => (execute r data).1) r

/-- What a call makes of the fields, by the vendored parser's. -/
theorem execute_fst (r : HttpResponseParser) (data : Bytes) :
    (execute r data).1 =
      let e := http_parser_execute httpParserSettings2 r.parser data r.target
      ⟨e.parser, if e.parser.http_errno ≠ .OK then e.parser.http_errno else r.error, e.app⟩ := by
  unfold execute
  dsimp only
  split <;> rfl

/-- Two pieces with a clean cut between them are one. -/
theorem execute_execute {pre data : Bytes} (hpre : pre ≠ []) (hdata : data ≠ [])
    (hclean : cleanCut (http_parser_init .HTTP_RESPONSE) pre data = true) :
    (execute (execute new pre).1 data).1 = (execute new (pre ++ data)).1 := by
  have hb := between_init .HTTP_RESPONSE
  obtain ⟨hparser, happ⟩ := execute_append httpParserSettings2_cuttable hb hpre hdata hclean new.target
  simp only [execute_fst, new] at hparser happ ⊢
  rw [← hparser, ← happ]
  generalize http_parser_execute httpParserSettings2 (http_parser_init .HTTP_RESPONSE) pre
    ⟨.new, false, []⟩ = e
  by_cases herr : e.parser.http_errno = .OK
  · simp [herr]
  · simp [execute_of_error herr, herr]

end HttpResponseParser

/-! ### Any number of pieces -/

/-- Pieces that are not empty have bytes. -/
theorem flatten_ne_nil {pieces : List Bytes} (hpieces : ∀ data ∈ pieces, data ≠ []) (hne : pieces ≠ []) :
    pieces.flatten ≠ [] := by
  obtain ⟨data, rest, rfl⟩ := List.exists_cons_of_ne_nil hne
  rw [List.flatten_cons]
  exact List.append_ne_nil_of_left_ne_nil (hpieces data List.mem_cons_self) _

section Fold

variable {S : Type} {f : S → Bytes → S} {s₀ : S} {p : HttpParser} {pieces : List Bytes}
  (two : ∀ {pre data : Bytes}, pre ≠ [] → data ≠ [] → cleanCut p pre data = true →
    f (f s₀ pre) data = f s₀ (pre ++ data))
  (hpieces : ∀ data ∈ pieces, data ≠ []) (hclean : CleanCuts p pieces)
include two hpieces hclean

/-- The first pieces, one after the other, are their bytes in one. -/
theorem foldl_take_of_cleanCuts {k : Nat} (hk : k < pieces.length) :
    (pieces.take (k + 1)).foldl f s₀ = f s₀ (pieces.take (k + 1)).flatten := by
  induction k with
  | zero =>
    cases pieces with
    | nil => exact absurd hk (Nat.not_lt_zero 0)
    | cons data rest => simp
  | succ k ih =>
    have hget : pieces[k + 1]? = some pieces[k + 1] := List.getElem?_eq_getElem hk
    have hcut := hclean (k + 1) hk (Nat.succ_pos k)
    rw [List.drop_eq_getElem_cons hk, List.flatten_cons] at hcut
    have hpre : (pieces.take (k + 1)).flatten ≠ [] := by
      refine flatten_ne_nil (fun data h => hpieces data (List.mem_of_mem_take h)) ?_
      exact List.ne_nil_of_length_pos (by rw [List.length_take]; omega)
    rw [List.take_add_one, hget, List.foldl_append, ih (by omega)]
    simp only [Option.toList_some, List.foldl_cons, List.foldl_nil, List.flatten_append,
      List.flatten_cons, List.flatten_nil, List.append_nil]
    exact two hpre (hpieces _ (List.getElem_mem hk)) (cleanCut_of_append hcut)

/-- All pieces, one after the other, are their bytes in one. -/
theorem foldl_of_cleanCuts (hne : pieces ≠ []) : pieces.foldl f s₀ = f s₀ pieces.flatten := by
  have hlen : 0 < pieces.length := List.length_pos_iff.mpr hne
  have hall := foldl_take_of_cleanCuts two hpieces hclean (k := pieces.length - 1) (by omega)
  rwa [Nat.sub_add_cancel hlen, List.take_length] at hall

end Fold

/-- **Pieces with clean cuts give what the message gives in one piece**, for requests and for
responses: the vendored parser, the error, the flag and the message are the same. -/
theorem feed_eq_execute (pieces : List Bytes) (hne : pieces ≠ []) (hpieces : ∀ data ∈ pieces, data ≠ []) :
    (CleanCuts (http_parser_init .HTTP_REQUEST) pieces →
      HttpRequestParser.feed .new pieces = (HttpRequestParser.execute .new pieces.flatten).1) ∧
    (CleanCuts (http_parser_init .HTTP_RESPONSE) pieces →
      HttpResponseParser.feed .new pieces = (HttpResponseParser.execute .new pieces.flatten).1) := by
  constructor
  · intro hclean
    exact foldl_of_cleanCuts HttpRequestParser.execute_execute hpieces hclean hne
  · intro hclean
    exact foldl_of_cleanCuts HttpResponseParser.execute_execute hpieces hclean hne

/-- A request whose body is cut, in a chunk and before its end. -/
def chunkedPieces : List Bytes :=
  [str "POST /p HTTP/1.1\r\nTransfer-Encoding: chunked\r\n\r\n5\r\nhe", str "llo\r", str "\n0\r\n\r\n"]

/-- A response cut in its reason phrase and in its body. -/
def responsePieces : List Bytes :=
  [str "HTTP/1.1 404 Not F", str "ound\r\nContent-Length: 4\r\n\r\nab", str "cd"]

/-- The statement at a chunked request and a response, each in pieces. -/
theorem feed_eq_execute_pieces :
    HttpRequestParser.feed .new chunkedPieces = (HttpRequestParser.execute .new chunkedPieces.flatten).1 ∧
      (HttpRequestParser.feed .new chunkedPieces).target.data.body = str "hello" ∧
      HttpResponseParser.feed .new responsePieces = (HttpResponseParser.execute .new responsePieces.flatten).1 ∧
      (HttpResponseParser.feed .new responsePieces).target.data.body = str "abcd" :=
  ⟨(feed_eq_execute chunkedPieces (by decide) (by decide)).1 (by decide), by decide,
    (feed_eq_execute responsePieces (by decide) (by decide)).2 (by decide), by decide⟩

-- a cut URL can come out right all the same: here its first part has no path
example : HttpRequestParser.feed .new [str "GET http://h", str "/a HTTP/1.1\r\n\r\n"] =
    (HttpRequestParser.execute .new (str "GET http://h/a HTTP/1.1\r\n\r\n")).1 := by
  decide

/-- **A URL that is cut is refused**: `GET /ab` in two pieces is an error, in one it is a request
for `/ab`. -/
theorem url_cut_refused :
    let pieces := [str "GET /a", str "b HTTP/1.1\r\n\r\n"]
    (HttpRequestParser.feed .new pieces).error = .CB_url ∧
      (HttpRequestParser.feed .new pieces).target.finished = false ∧
      (HttpRequestParser.feed .new pieces).target.data.path = str "/a" ∧
      (HttpRequestParser.execute .new pieces.flatten).1.error = .OK ∧
      (HttpRequestParser.execute .new pieces.flatten).1.target.finished = true ∧
      (HttpRequestParser.execute .new pieces.flatten).1.target.data.path = str "/ab" := by
  decide

end Http
end Wuchat
