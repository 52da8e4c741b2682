/-
# Reading back the head of a request

What `HttpRequestParser` makes of a request line and of the empty line after the headers, as
`HttpRequest::dump` prints them.  The parser reads the name of every method
(`scans_methodName`); a name that begins with another character is refused.  The characters
of the URL are taken by the loop of `http_parser_execute` and then handed to
`on_request_url_cb`, which takes the URL apart once more (`Wuchat.HttpParser.UrlParts`).
-/

import Wuchat.Http.HeaderLines
import Wuchat.HttpParser.UrlParts

namespace Wuchat
namespace Http

open Foundation HttpParsing

/-- A parser that has read the name of the method `m`. -/
def View.asked (m : HttpMethod) : View :=
  { view (http_parser_init .HTTP_REQUEST) with content_length := ULLONG_MAX, method := m }

variable {v : View} {t : Target HttpRequest} {d : HttpRequest} {ch : UInt8} {m m' : HttpMethod} {i : Nat}

/-! ### Methods -/

/-- In the name of a method, which may be `m` after `i` characters. -/
def InMethod (m : HttpMethod) (i : Nat) (t : Target HttpRequest) (n : Nat) : Point (Target HttpRequest) :=
  fun p loop l => p.index = i ∧ Here .s_req_method (.asked m) noMarks t n p loop l

/-- The method after one more character. -/
def nextMethod (m : HttpMethod) (i : Nat) (ch : UInt8) : Option HttpMethod :=
  if ch = 0 ∨ ch = chr ' ' then none
  else if ch = (methodString m).getD i 0 then some m
  else if (chr 'A' ≤ ch ∧ ch ≤ chr 'Z') ∨ ch = chr '-' then switchMethod m i ch
  else none

/-- The method after more characters. -/
def methodAfter : HttpMethod → Nat → Bytes → Option HttpMethod
  | m, _, [] => some m
  | m, i, ch :: rest => (nextMethod m i ch).bind fun m' => methodAfter m' (i + 1) rest

/-- The first character of a method. -/
theorem scans_firstMethod (ha : isAlpha ch = true) (hm : firstMethod ch = some m) :
    Scans httpParserSettings1 (Here .s_start_req (view (http_parser_init .HTTP_REQUEST)) noMarks t) [ch] True
      (InMethod m 1 t) := by
  have hend : ch ≠ CR ∧ ch ≠ LF := by
    constructor <;> rintro rfl <;> revert ha <;> decide
  refine scans_byte rfl fun q hs hv => ?_
  unfold reexecute
  rw [hs]
  dsimp only
  rw [startReq, if_neg (not_or.mpr hend), ha, Bool.not_true, if_neg Bool.false_ne_true, hm]
  simp only [view, View.mk.injEq] at hv
  refine ⟨trivial, rfl, rfl, rfl, ?_, rfl, rfl⟩
  simp only [view, View.asked, View.mk.injEq, hv]
  decide

/-- Another character of a method. -/
theorem scans_nextMethod (h : nextMethod m i ch = some m') :
    Scans httpParserSettings1 (InMethod m i t) [ch] True (InMethod m' (i + 1) t) := by
  rintro n - hlt p loop l ⟨rfl, rfl, hs, hv, rfl, rfl⟩
  have hmethod : (addRead 1 p).method = m := congrArg View.method hv
  have hview : view { addRead 1 p with method := m' } = .asked m' :=
    congrArg (fun w : View => { w with method := m' }) hv
  have hcount : (addRead 1 p).nread = p.nread + 1 := addRead_nread hlt
  have hindex : (addRead 1 p).index = p.index := rfl
  refine exactly_byte (exactly_outer (by rw [hs]; rfl) hlt ?_)
  unfold reexecute
  rw [show (addRead 1 p).state = .s_req_method from hs]
  dsimp only
  unfold nextMethod at h
  split at h
  · cases h
  · rename_i hne
    rw [not_or] at hne
    rw [reqMethod, if_neg hne.1, hmethod, hindex, if_neg (fun hsp => hne.2 hsp.1)]
    split at h
    · rename_i hch
      cases h
      rw [if_pos hch]
      exact ⟨trivial, rfl, rfl, hs, hview, hcount, rfl⟩
    · rename_i hch
      split at h
      · rename_i hupper
        rw [if_neg hch, if_pos hupper, h]
        exact ⟨trivial, rfl, rfl, hs, hview, hcount, rfl⟩
      · cases h

/-- The bytes of a method are scanned by its table. -/
theorem scans_methodAfter {bs : Bytes} (h : methodAfter m i bs = some m') :
    Scans httpParserSettings1 (InMethod m i t) bs True (InMethod m' (i + bs.length) t) := by
  induction bs generalizing m i with
  | nil =>
    cases h
    exact .nil trivial
  | cons ch rest ih =>
    obtain ⟨m₁, hch, hrest⟩ := Option.bind_eq_some_iff.mp h
    have hlen : i + 1 + rest.length = i + (ch :: rest).length := by
      rw [List.length_cons]
      omega
    rw [← hlen]
    exact .cons (scans_nextMethod hch) (ih hrest)

/-- The space after a method. -/
theorem scans_methodEnd (hi : (methodString m).length ≤ i) :
    Scans httpParserSettings1 (InMethod m i t) [chr ' '] True
      (Here .s_req_spaces_before_url (.asked m) noMarks t) := by
  rintro n - hlt p loop l ⟨rfl, rfl, hs, hv, rfl, rfl⟩
  have hmethod : (addRead 1 p).method = m := congrArg View.method hv
  have hend : (methodString (addRead 1 p).method).getD (addRead 1 p).index 0 = 0 := by
    rw [hmethod, List.getD_eq_getElem?_getD, List.getElem?_eq_none (show _ ≤ (addRead 1 p).index from hi)]
    rfl
  refine exactly_byte (exactly_outer (by rw [hs]; rfl) hlt ?_)
  unfold reexecute
  rw [show (addRead 1 p).state = .s_req_method from hs]
  dsimp only
  rw [reqMethod, if_neg (by decide), if_pos ⟨rfl, hend⟩]
  exact ⟨trivial, rfl, rfl, hv, addRead_nread hlt, rfl⟩

/-- The parser makes the method `m` of its name. -/
def readsName (m : HttpMethod) : Bool :=
  match methodString m with
  | [] => false
  | ch :: rest => isAlpha ch && ((firstMethod ch).bind fun m' => methodAfter m' 1 rest) == some m

/-- Every method's name is read. -/
theorem readsName_eq (hm : m ≠ .INVALID_METHOD) : readsName m = true := by
  cases m <;> first
    | exact (hm rfl).elim
    | decide +kernel

/-- **The name of a method** and the space after it. -/
theorem scans_methodName (hm : m ≠ .INVALID_METHOD) :
    Scans httpParserSettings1 (Here .s_start_req (view (http_parser_init .HTTP_REQUEST)) noMarks t)
      (methodString m ++ [chr ' ']) True (Here .s_req_spaces_before_url (.asked m) noMarks t) := by
  have hreads := readsName_eq hm
  unfold readsName at hreads
  split at hreads
  · cases hreads
  · rename_i ch rest hname
    rw [Bool.and_eq_true, beq_iff_eq] at hreads
    obtain ⟨m₁, hfirst, hafter⟩ := Option.bind_eq_some_iff.mp hreads.2
    have hend := scans_methodEnd (t := t) (Nat.le_of_eq (by rw [hname, List.length_cons, Nat.add_comm]) :
      (methodString m).length ≤ 1 + rest.length)
    rw [hname]
    exact .cons (scans_firstMethod hreads.1 hfirst) ((scans_methodAfter hafter).then hend)

/-- A character that no method begins with. -/
theorem scans_noMethod (ha : isAlpha ch = false) (hcr : ch ≠ CR) (hlf : ch ≠ LF)
    {Q : Nat → Point (Target HttpRequest)} :
    Scans httpParserSettings1 (Here .s_start_req v noMarks t) [ch] False Q := by
  refine scans_byte rfl fun q hs _ => ?_
  unfold reexecute
  rw [hs]
  dsimp only
  rw [startReq, if_neg (not_or.mpr ⟨hcr, hlf⟩), ha, Bool.not_false, if_pos rfl]
  exact exactly_fail (by decide) id

/-- The methods below 6 are printed by their names. -/
theorem HttpMethodToString_of_lt (h : m.num < 6) :
    HttpMethodToString m = methodString m ∧ m ≠ .INVALID_METHOD := by
  cases m <;> first
    | exact absurd h (by decide)
    | decide

/-- The others are printed as unknown. -/
theorem HttpMethodToString_of_le (h : 6 ≤ m.num) : HttpMethodToString m = str "<unknown>" := if_pos h

/-- **The method of a request** and the space after it, as they are printed: only the first six
methods are printed by their names. -/
theorem scans_method (m : HttpMethod) :
    Scans httpParserSettings1 (Here .s_start_req (view (http_parser_init .HTTP_REQUEST)) noMarks t)
      (HttpMethodToString m ++ str " ") (m.num < 6) (Here .s_req_spaces_before_url (.asked m) noMarks t) := by
  by_cases hm : m.num < 6
  · obtain ⟨hname, hvalid⟩ := HttpMethodToString_of_lt hm
    rw [hname]
    exact (scans_methodName hvalid).congr ⟨fun _ => hm, fun _ => trivial⟩
  · have hbad : Scans httpParserSettings1
        (Here .s_start_req (view (http_parser_init .HTTP_REQUEST)) noMarks t) [chr '<'] False
        (Here .s_req_spaces_before_url (.asked m) noMarks t) := scans_noMethod (by decide) (by decide) (by decide)
    rw [HttpMethodToString_of_le (Nat.le_of_not_lt hm),
      show str "<unknown>" ++ str " " = [chr '<'] ++ str "unknown> " from by decide]
    exact (hbad.refuse (str "unknown> ")).congr ⟨False.elim, hm⟩

/-! ### The URL -/

/-- The states behind the slash of a URL. -/
def pastSlash : State → Bool
  | .s_req_path | .s_req_query_string_start | .s_req_query_string | .s_req_fragment_start
  | .s_req_fragment => true
  | _ => false

/-- Behind its slash a URL stays there. -/
theorem pastSlash_parse_url_char {st : State} (hst : pastSlash st = true) (hch : isFragmentChar ch = true) :
    pastSlash (parse_url_char st ch) = true := by
  have hall : ∀ st, pastSlash st = true →
      ∀ n : Fin 256, isFragmentChar (UInt8.ofNat n) = true →
        pastSlash (parse_url_char st (UInt8.ofNat n)) = true := by
    intro st hst
    cases st <;> first
      | exact absurd hst (by decide)
      | decide +kernel
  exact forall_byte (P := fun ch => isFragmentChar ch = true → pastSlash (parse_url_char st ch) = true)
    (hall st hst) ch hch

/-- Behind the slash of a URL, with the bytes `bs` of it. -/
def InUrl (v : View) (bs : Bytes) (t : Target HttpRequest) (n : Nat) : Point (Target HttpRequest) :=
  fun p loop l => ∃ st, pastSlash st = true ∧ Here st v (onlyMark .url bs) t n p loop l

/-- A byte behind the slash. -/
theorem scans_inUrl {bs : Bytes} {C : Prop} {Q : Nat → Point (Target HttpRequest)}
    (h : ∀ q, pastSlash q.state = true → view q = v →
      ((reqUrl ch q).run httpParserSettings1 ch ⟨onlyMark .url bs, t⟩).Exactly C (Q q.nread)) :
    Scans httpParserSettings1 (InUrl v bs t) [ch] C Q := by
  intro n hle hlt p loop l ⟨st, hst, hp⟩
  have hbyte : Scans httpParserSettings1 (Here st v (onlyMark .url bs) t) [ch] C Q := by
    refine scans_byte (by revert hst; cases st <;> decide) fun q hs hv => ?_
    have hcase : reexecute ch q = reqUrl ch q := by
      unfold reexecute
      rw [hs]
      cases st <;> first
        | exact absurd hst (by decide)
        | rfl
    rw [hcase]
    exact h q (by rw [hs]; exact hst) hv
  exact hbyte n hle hlt p loop l hp

/-- A character of a fragment does not end the URL. -/
theorem isFragmentChar_ne (h : isFragmentChar ch = true) : ch ≠ chr ' ' ∧ ch ≠ CR ∧ ch ≠ LF := by
  revert ch
  exact @forall_byte _ (by decide +kernel)

/-- The slash of a path begins the URL. -/
theorem scans_slash (hm : v.method ≠ .CONNECT) :
    Scans httpParserSettings1 (Here .s_req_spaces_before_url v noMarks t) [chr '/'] True
      (InUrl v [chr '/'] t) := by
  refine scans_byte rfl fun q hs hv => ?_
  have hmethod : q.method ≠ .CONNECT := by
    rw [show q.method = v.method from congrArg View.method hv]
    exact hm
  have hpath : parse_url_char .s_req_spaces_before_url (chr '/') = .s_req_path := by decide
  unfold reexecute
  rw [hs]
  dsimp only
  rw [reqSpacesBeforeUrl, if_neg (by decide), if_neg hmethod, urlChar, hpath]
  dsimp only
  rw [if_neg (by decide)]
  refine ⟨trivial, .s_req_path, rfl, rfl, rfl, hv, rfl, ?_⟩
  rw [mark_noMarks, push_onlyMark]
  rfl

/-- More characters of a URL. -/
theorem scans_urlChars (bs : Bytes) {cs : Bytes} (h : ∀ ch ∈ cs, isFragmentChar ch = true) :
    Scans httpParserSettings1 (InUrl v bs t) cs True (InUrl v (bs ++ cs) t) := by
  induction cs generalizing bs with
  | nil =>
    rw [List.append_nil]
    exact .nil trivial
  | cons ch cs ih =>
    obtain ⟨hch, hcs⟩ := List.forall_mem_cons.mp h
    obtain ⟨hsp, hcr, hlf⟩ := isFragmentChar_ne hch
    rw [List.append_cons]
    refine .cons (scans_inUrl fun q hs hv => ?_) (ih (bs ++ [ch]) hcs)
    have hpast := pastSlash_parse_url_char hs hch
    rw [reqUrl, if_neg hsp, if_neg (not_or.mpr ⟨hcr, hlf⟩), urlChar]
    dsimp only
    rw [if_neg (fun hdead => by rw [hdead] at hpast; cases hpast)]
    refine ⟨trivial, _, hpast, rfl, rfl, hv, rfl, ?_⟩
    rw [push_onlyMark]

/-- The space after a URL. -/
theorem scans_urlEnd {url : Bytes} (h : (on_request_url_cb url t).2 = 0) :
    Scans httpParserSettings1 (InUrl v url t) [chr ' '] True
      (Here .s_req_http_start v noMarks (on_request_url_cb url t).1) := by
  refine scans_inUrl fun q hs hv => ?_
  rw [reqUrl, if_pos rfl]
  simp only [Prog.run, onlyMark_self, httpParserSettings1, on_request_data_cb, h, ne_eq, not_true_eq_false,
    if_false, setMark_onlyMark, push_noMarks, Bool.false_eq_true]
  exact ⟨trivial, rfl, rfl, hv, rfl, rfl⟩

/-- **The URL of a request** and the space after it. -/
theorem scans_url {path query fragment : Bytes} (h : IsUrl path query fragment) (hm : v.method ≠ .CONNECT) :
    Scans httpParserSettings1 (Here .s_req_spaces_before_url v noMarks t)
      (urlText path query fragment ++ str " ") True
      (Here .s_req_http_start v noMarks (on_request_url_cb (urlText path query fragment) t).1) := by
  have hcb : (on_request_url_cb (urlText path query fragment) t).2 = 0 := by
    rw [on_request_url_cb, parse_url_urlText h]
  have hchars := isFragmentChar_of_mem_urlText h
  obtain ⟨bs, hurl⟩ : ∃ bs, urlText path query fragment = chr '/' :: bs := by
    obtain ⟨bs, rfl⟩ := List.head?_eq_some_iff.mp h.slash
    exact ⟨_, rfl⟩
  rw [hurl] at hcb hchars ⊢
  have htail := scans_urlChars (v := v) (t := t) [chr '/']
    fun c hc => hchars c (List.mem_cons_of_mem _ hc)
  exact .cons (scans_slash hm) (htail.then (scans_urlEnd hcb))

/-! ### The version -/

/-- `HTTP/`. -/
theorem scans_httpSlash : Scans httpParserSettings1 (Here .s_req_http_start v noMarks t) (str "HTTP/") True
    (Here .s_req_http_major v noMarks t) := by
  have hH : Scans httpParserSettings1 (Here .s_req_http_start v noMarks t) [chr 'H'] True
      (Here .s_req_http_H v noMarks t) := by
    refine scans_goto rfl fun q hs => ?_
    unfold reexecute
    rw [hs]
    rfl
  rw [show str "HTTP/" = [chr 'H'] ++
    ([chr 'T'] ++ ([chr 'T'] ++ ([chr 'P'] ++ [chr '/']))) from by decide]
  refine hH.then ((scans_expect 'T' .s_req_http_HT rfl ?_).then
    ((scans_expect 'T' .s_req_http_HTT rfl ?_).then
    ((scans_expect 'P' .s_req_http_HTTP rfl ?_).then (scans_expect '/' .s_req_http_major rfl ?_))))
  all_goals
    intro ch q hs
    unfold reexecute
    rw [hs]

/-- The second number of the version, and the end of the line. -/
theorem scans_minorLine {b : Nat} (hb : b ≤ 9) :
    Scans httpParserSettings1 (Here .s_req_http_minor v noMarks t) (decimal b ++ crlf) True
      (Here .s_header_field_start { v with http_minor := b } noMarks t) := by
  obtain ⟨ch, hdec, hnum, hval⟩ := decimal_of_le hb
  have hdigit : Scans httpParserSettings1 (Here .s_req_http_minor v noMarks t) [ch] True
      (Here .s_req_http_end { v with http_minor := ch.toNat - 48 } noMarks t) :=
    scans_digit (fun d q => { q with http_minor := d, state := .s_req_http_end })
      (fun d v => { v with http_minor := d }) rfl (fun ch q hs => by unfold reexecute; rw [hs])
      (fun d q => ⟨rfl, rfl, rfl⟩) hnum
  have hcr : Scans httpParserSettings1 (Here .s_req_http_end { v with http_minor := b } noMarks t) [CR] True
      (Here .s_req_line_almost_done { v with http_minor := b } noMarks t) := by
    refine scans_goto rfl fun q hs => ?_
    unfold reexecute
    rw [hs]
    rfl
  have hlf : Scans httpParserSettings1 (Here .s_req_line_almost_done { v with http_minor := b } noMarks t) [LF]
      True (Here .s_header_field_start { v with http_minor := b } noMarks t) := by
    refine scans_goto rfl fun q hs => ?_
    unfold reexecute
    rw [hs]
    rfl
  rw [hval] at hdigit
  rw [hdec, show crlf = [CR] ++ [LF] from by decide]
  exact hdigit.then (hcr.then hlf)

/-- **The version of a request** and the end of the line. -/
theorem scans_version {a b : Nat} (ha : a ≤ 9) (hb : b ≤ 9) :
    Scans httpParserSettings1 (Here .s_req_http_start v noMarks t)
      (str "HTTP/" ++ (decimal a ++ str ".") ++ (decimal b ++ crlf)) True
      (Here .s_header_field_start { v with http_major := a, http_minor := b } noMarks t) := by
  have hmajor : Scans httpParserSettings1 (Here .s_req_http_major v noMarks t) (decimal a ++ str ".") (a ≤ 9)
      (Here .s_req_http_minor { v with http_major := a } noMarks t) :=
    scans_versionNumber .s_req_http_dot '.'
      (fun d q => { q with http_major := d, state := .s_req_http_dot })
      (fun d v => { v with http_major := d }) rfl rfl
      (fun ch q hs => by unfold reexecute; rw [hs]) (fun d q => ⟨rfl, rfl, rfl⟩)
      (fun ch q hs => by unfold reexecute; rw [hs]) (by decide) a
  exact (scans_httpSlash.then (hmajor.congr ⟨fun _ => trivial, fun _ => ha⟩)).then (scans_minorLine hb)

/-! ### The end of the head -/

/-- The request when its headers are complete. -/
def View.request (v : View) (d : HttpRequest) : HttpRequest :=
  { d with version := v.http_major * 16 + v.http_minor, method := v.method }

/-- Behind the head: at the end of a request without a length, or before the body. -/
def PastHead (v : View) (d : HttpRequest) : Point (Target HttpRequest) := fun p loop l =>
  loop = .outer ∧ p.http_errno = .OK ∧ p.upgrade = false ∧
    ∃ filed, l = ⟨noMarks, ⟨d, v.content_length = ULLONG_MAX, filed⟩⟩ ∧
      (v.content_length ≠ ULLONG_MAX → p.state = .s_body_identity ∧ p.content_length = v.content_length)

/-- The views of requests without a transfer encoding that do not ask for another protocol. -/
structure View.Asks (v : View) : Prop where
  type : v.type = .HTTP_REQUEST
  noError : v.http_errno = .OK
  method : v.method ≠ .CONNECT
  chunked : v.chunked = false
  trailing : v.trailing = false
  upgrade : v.upgrade = false
  skipbody : v.skipbody = false
  length : v.content_length ≠ 0

/-- **The empty line after the headers** of a request. -/
theorem scans_emptyRequest (hv : v.Asks) :
    Scans httpParserSettings1 (AtLine v d) crlf True fun _ => PastHead v (v.request d) := by
  refine scans_emptyLine (fun _ _ => rfl) hv.method hv.chunked hv.trailing hv.upgrade fun q filed hqv hup => ?_
  subst hqv
  have hrequest : http_message_needs_eof { q with nread := 0 } = false := if_pos hv.type
  rw [headersDone_eq hup hv.skipbody hv.chunked hv.length]
  by_cases h : q.content_length = ULLONG_MAX
  · rw [if_neg (not_not_intro h), hrequest, Bool.not_false, if_pos rfl]
    refine ⟨trivial, rfl, hv.noError, hup, filed, ?_, fun hne => (hne h).elim⟩
    rw [show decide ((view q).content_length = ULLONG_MAX) = true from decide_eq_true h]
    rfl
  · rw [if_pos h]
    refine ⟨trivial, rfl, hv.noError, hup, filed, ?_, fun _ => ⟨rfl, rfl⟩⟩
    rw [show decide ((view q).content_length = ULLONG_MAX) = false from decide_eq_false h]
    rfl

end Http
end Wuchat
