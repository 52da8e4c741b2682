/-
# The size of a body that is received

`http/http_parser.cpp` reads a largest body size from the configuration, for requests and
for responses, and nothing asks for it: `on_request_body_cb` and `on_response_body_cb`
append what they get, and `recvRequest` and `recvResponse` look at the error and at the
end of the message only.

How much of a body a call hands out is a matter of the vendored parser and the bytes
(`bodyBytes`), and the body of the message grows by just that much (`size_execute`).  So
the body stays within a size all the way through a run exactly when the parser finds no
more body bytes in the stream (`recv_bodyWithin_iff`).
-/

import Wuchat.Http.Connection

namespace Wuchat
namespace Http

open Foundation HttpParsing Streams

/-! ### Body bytes -/

/-- What is found of a message: how many bytes of a body, and whether it is complete. -/
structure Found where
  bytes : Nat
  complete : Bool

/-- Nothing yet. -/
def Found.nothing : Found := ⟨0, false⟩

/-- Callbacks that find the body and the end of a message; `answer` is what the data callbacks return. -/
def countBody (answer : Mark → Bytes → Int) : Settings Found where
  notify n _ f := (match n with | .message_complete => { f with complete := true } | _ => f, 0)
  headersComplete _ f := (f, 0)
  data m _ bs f := (if m = .body then { f with bytes := f.bytes + bs.length } else f, answer m bs)

/-- The answers of the callbacks of a request: a URL can be refused. -/
def requestAnswer (m : Mark) (bs : Bytes) : Int :=
  if m = .url ∧ http_parser_parse_url bs false = none then 1 else 0

/-- The answers of the callbacks of a response. -/
def responseAnswer (_ : Mark) (_ : Bytes) : Int := 0

/-- **The bytes of a body that a call of the vendored parser hands out.** -/
def bodyBytes (answer : Mark → Bytes → Int) (p : HttpParser) (data : Bytes) : Nat :=
  (http_parser_execute (countBody answer) p data .nothing).app.bytes

/-- Counting goes on from wherever it starts. -/
theorem countBody_execute (answer : Mark → Bytes → Int) (p : HttpParser) (data : Bytes) (f : Found) :
    (http_parser_execute (countBody answer) p data f).app.bytes = f.bytes + bodyBytes answer p data := by
  have hmaps : Settings.Maps (fun g : Found => (⟨f.bytes + g.bytes, f.complete || g.complete⟩ : Found))
      (countBody answer) (countBody answer) := by
    refine ⟨fun n _ g => ?_, fun _ _ => rfl, fun m p bs g => ?_⟩
    · cases n <;> simp [countBody]
    · rw [countBody]
      dsimp only
      split
      · rw [Nat.add_assoc]
      · rfl
  have hcall := execute_maps hmaps p data .nothing
  simp only [Found.nothing, Nat.add_zero, Bool.or_false] at hcall
  rw [hcall]
  rfl

/-- What is found of a message by the callbacks of a parser object. -/
def found {M : Type} (size : M → Nat) (t : Target M) : Found := ⟨size t.data, t.finished⟩

/-- Callbacks that answer so and make a body of the given size out of its parts. -/
abbrev Sized {M : Type} (s : Settings (Target M)) (answer : Mark → Bytes → Int) (size : M → Nat) : Prop :=
  Settings.Maps (found size) s (countBody answer)

/-- The body of a request grows by what is told of it. -/
theorem sized_request : Sized httpParserSettings1 requestAnswer fun r : HttpRequest => r.body.length := by
  refine ⟨fun n _ t => ?_, fun _ _ => rfl, fun m _ bs t => ?_⟩
  · cases n <;> rfl
  · cases m with
    | url =>
      show _ = (found _ (on_request_url_cb bs t).1, (on_request_url_cb bs t).2)
      unfold on_request_url_cb
      cases hurl : http_parser_parse_url bs false with
      | none => simp [countBody, requestAnswer, hurl]
      | some u => simp [countBody, requestAnswer, hurl, found]
    | body => simp [countBody, requestAnswer, httpParserSettings1, on_request_data_cb, HttpRequest.appendBody, found]
    | header_field | header_value | status => rfl

/-- So does the body of a response. -/
theorem sized_response : Sized httpParserSettings2 responseAnswer fun r : HttpResponse => r.body.length := by
  refine ⟨fun n _ t => ?_, fun _ _ => rfl, fun m _ bs t => ?_⟩
  · cases n <;> rfl
  · cases m with
    | body =>
      simp [countBody, responseAnswer, httpParserSettings2, on_response_data_cb, HttpResponse.appendBody, found]
    | url | header_field | header_value | status => rfl

section Calls

variable {M : Type} {s : Settings (Target M)} {answer : Mark → Bytes → Int} {size : M → Nat}
  (hsize : Sized s answer size)
include hsize

/-- **A call adds its body bytes to the body.** -/
theorem size_execute (p : HttpParser) (data : Bytes) (t : Target M) :
    size (http_parser_execute s p data t).app.data = size t.data + bodyBytes answer p data := by
  have hcount := countBody_execute answer p data (found size t)
  rw [execute_maps hsize p data t] at hcount
  exact hcount

/-- A callback takes nothing from the body. -/
theorem size_steps : s.Steps fun t t' => size t.data ≤ size t'.data where
  refl _ := Nat.le_refl _
  trans := Nat.le_trans
  notify n p t := by
    have h := congrArg (fun x => x.1.bytes) (hsize.notify n p t)
    cases n <;> exact Nat.le_of_eq h
  headersComplete p t := by
    have h := congrArg (fun x => x.1.bytes) (hsize.headersComplete p t)
    exact Nat.le_of_eq h
  data m p bs t := by
    have h := congrArg (fun x => x.1.bytes) (hsize.data m p bs t)
    simp only [countBody, found] at h
    split at h <;> simp only at h <;> omega

/-- **The body stays within a size throughout a call** exactly when it is within it at the end. -/
theorem states_le_iff (p : HttpParser) (data : Bytes) {t : Target M} {max : Nat} (ht : size t.data ≤ max) :
    (∀ t' ∈ states s p data t, size t'.data ≤ max) ↔ size t.data + bodyBytes answer p data ≤ max := by
  obtain ⟨hbetween, hlast⟩ := states_between (size_steps hsize) p data t
  rw [← size_execute hsize]
  constructor
  · intro hall
    rcases hlast with hsame | hmem
    · rw [hsame]
      exact ht
    · exact hall _ hmem
  · exact fun hend t' ht' => Nat.le_trans (hbetween t' ht').2 hend

end Calls

/-! ### The calls of a run -/

/-- The calls of `execute` that the loops of `recvRequest` and `recvResponse` make: the parser before
the call and the bytes in the buffer. -/
def executeCalls {M : Type} (execute : MessageParser M → Bytes → MessageParser M × Nat × Bytes)
    (bufferSize : Nat) : Nat → MessageParser M → Bytes → Link → List (MessageParser M × Bytes)
  | 0, _, _, _ => []
  | fuel + 1, parser, data, l =>
    match Link.read (bufferSize - data.length) l with
    | .ok (some got) l' =>
      if got = [] then []
      else
        let (parser', nparse, moved) := execute parser (data ++ got)
        let offset := (data ++ got).length - nparse
        (parser, data ++ got) ::
          if parser'.error ≠ .OK ∨ offset = bufferSize ∨ parser'.target.finished then []
          else executeCalls execute bufferSize fuel parser' (moved.take offset) l'
    | _ => []

/-- The body bytes of the calls, all together. -/
def totalBody {M : Type} (answer : Mark → Bytes → Int) (calls : List (MessageParser M × Bytes)) : Nat :=
  (calls.map fun c => bodyBytes answer c.1.parser c.2).sum

/-- No call tells no byte. -/
theorem totalBody_nil {M : Type} (answer : Mark → Bytes → Int) :
    totalBody answer ([] : List (MessageParser M × Bytes)) = 0 := rfl

/-- One call, then the others. -/
theorem totalBody_cons {M : Type} (answer : Mark → Bytes → Int) (c : MessageParser M × Bytes)
    (calls : List (MessageParser M × Bytes)) :
    totalBody answer (c :: calls) = bodyBytes answer c.1.parser c.2 + totalBody answer calls :=
  List.sum_cons

/-- A turn of the loop makes no call, or one and then those of the turns after it. -/
theorem executeCalls_succ {M : Type} (execute : MessageParser M → Bytes → MessageParser M × Nat × Bytes)
    (bufferSize fuel : Nat) (r : MessageParser M) (data : Bytes) (l : Link) :
    executeCalls execute bufferSize (fuel + 1) r data l = [] ∨
      ∃ buf rest, executeCalls execute bufferSize (fuel + 1) r data l = (r, buf) :: rest ∧
        (rest = [] ∨ ∃ data' l', rest = executeCalls execute bufferSize fuel (execute r buf).1 data' l') := by
  rw [executeCalls]
  split
  · rename_i got l' _
    split
    · exact .inl rfl
    · refine .inr ⟨data ++ got, _, rfl, ?_⟩
      split
      · exact .inl rfl
      · exact .inr ⟨_, _, rfl⟩
  · exact .inl rfl

section Runs

variable {M : Type} {s : Settings (Target M)} {answer : Mark → Bytes → Int} {size : M → Nat}
  {execute : MessageParser M → Bytes → MessageParser M × Nat × Bytes} {stops : HttpParser → Bool}
  (hsize : Sized s answer size) (hwraps : Wraps execute s stops)
include hsize hwraps

/-- **The body stays within a size in all calls** exactly when their body bytes add up to no more. -/
theorem executeCalls_le_iff (bufferSize : Nat) {max : Nat} (fuel : Nat) (r : MessageParser M) (data : Bytes)
    (l : Link) (hr : size r.target.data ≤ max) :
    (∀ c ∈ executeCalls execute bufferSize fuel r data l,
        ∀ t ∈ states s c.1.parser c.2 c.1.target, size t.data ≤ max) ↔
      size r.target.data + totalBody answer (executeCalls execute bufferSize fuel r data l) ≤ max := by
  induction fuel generalizing r data l with
  | zero =>
    rw [executeCalls, totalBody_nil, Nat.add_zero]
    exact iff_of_true (List.forall_mem_nil _) hr
  | succ fuel ih =>
    rcases executeCalls_succ execute bufferSize fuel r data l with hnone | ⟨buf, rest, hcalls, hrest⟩
    · rw [hnone, totalBody_nil, Nat.add_zero]
      exact iff_of_true (List.forall_mem_nil _) hr
    · have hafter : size (execute r buf).1.target.data = size r.target.data + bodyBytes answer r.parser buf := by
        rw [hwraps.target, size_execute hsize]
      rw [hcalls, List.forall_mem_cons, totalBody_cons, states_le_iff hsize r.parser buf hr, ← Nat.add_assoc]
      dsimp only
      rw [← hafter]
      constructor
      · rintro ⟨hfirst, hmore⟩
        rcases hrest with rfl | ⟨data', l', rfl⟩
        · exact hfirst
        · exact (ih _ data' l' hfirst).mp hmore
      · intro hsum
        have hfirst : size (execute r buf).1.target.data ≤ max := Nat.le_trans (Nat.le_add_right _ _) hsum
        refine ⟨hfirst, ?_⟩
        rcases hrest with rfl | ⟨data', l', rfl⟩
        · exact List.forall_mem_nil _
        · exact (ih _ data' l' hfirst).mpr hsum

/-- What a call of a run leaves has no more than the body bytes of all of them. -/
theorem size_call_le (bufferSize fuel : Nat) (r : MessageParser M) (data : Bytes) (l : Link) :
    ∀ c ∈ executeCalls execute bufferSize fuel r data l, size (execute c.1 c.2).1.target.data ≤
      size r.target.data + totalBody answer (executeCalls execute bufferSize fuel r data l) := by
  induction fuel generalizing r data l with
  | zero => exact List.forall_mem_nil _
  | succ fuel ih =>
    rcases executeCalls_succ execute bufferSize fuel r data l with hnone | ⟨buf, rest, hcalls, hrest⟩
    · rw [hnone]
      exact List.forall_mem_nil _
    · have hafter : size (execute r buf).1.target.data = size r.target.data + bodyBytes answer r.parser buf := by
        rw [hwraps.target, size_execute hsize]
      rw [hcalls, totalBody_cons, ← Nat.add_assoc]
      dsimp only
      rw [← hafter, List.forall_mem_cons]
      refine ⟨Nat.le_add_right _ _, ?_⟩
      rcases hrest with rfl | ⟨data', l', rfl⟩
      · exact List.forall_mem_nil _
      · exact ih _ data' l'

end Runs

/-! ### What is returned -/

/-- The call of a turn that has read something, and those after it. -/
theorem executeCalls_of_read {M : Type} (execute : MessageParser M → Bytes → MessageParser M × Nat × Bytes)
    {bufferSize : Nat} (fuel : Nat) (r : MessageParser M) {data got : Bytes} {l l' : Link}
    (hread : Link.read (bufferSize - data.length) l = .ok (some got) l') (hne : got ≠ []) :
    executeCalls execute bufferSize (fuel + 1) r data l =
      (r, data ++ got) ::
        if (execute r (data ++ got)).1.error ≠ .OK ∨
            (data ++ got).length - (execute r (data ++ got)).2.1 = bufferSize ∨
            (execute r (data ++ got)).1.target.finished then []
        else executeCalls execute bufferSize fuel (execute r (data ++ got)).1
          ((execute r (data ++ got)).2.2.take ((data ++ got).length - (execute r (data ++ got)).2.1)) l' := by
  rw [executeCalls, hread]
  dsimp only
  rw [if_neg hne]

/-- **The message that is returned** is what one of the calls has left. -/
theorem receiveLoop_returned {M : Type} {execute : MessageParser M → Bytes → MessageParser M × Nat × Bytes}
    {done : M → M} {bufferSize fuel : Nat} {r : MessageParser M} {data : Bytes} {l l' : Link} {m : M}
    (h : receiveLoop execute done bufferSize fuel r data l = .ok (some m) l') :
    ∃ c ∈ executeCalls execute bufferSize fuel r data l, done (execute c.1 c.2).1.target.data = m := by
  induction fuel generalizing r data l with
  | zero => cases h
  | succ fuel ih =>
    rw [receiveLoop] at h
    obtain ⟨got, l₁, hread, h⟩ := Act.of_bind_ok h
    cases got with
    | none => cases h
    | some got =>
      dsimp only at h
      by_cases hne : got = []
      · rw [if_pos hne] at h
        cases h
      · rw [if_neg hne] at h
        rw [executeCalls_of_read _ fuel r hread hne]
        rcases hexec : execute r (data ++ got) with ⟨r', n, moved⟩
        rw [hexec] at h
        dsimp only at h ⊢
        by_cases herr : r'.error = .OK
        · rw [if_neg (not_not_intro herr)] at h
          by_cases hoff : (data ++ got).length - n = bufferSize
          · rw [if_pos hoff] at h
            cases h
          · rw [if_neg hoff] at h
            by_cases hfin : r'.target.finished = true
            · rw [if_pos hfin] at h
              cases h
              exact ⟨_, List.mem_cons_self, by rw [hexec]⟩
            · rw [if_neg hfin] at h
              obtain ⟨c, hc, hm⟩ := ih h
              rw [if_neg (not_or.mpr ⟨not_not_intro herr, not_or.mpr ⟨hoff, hfin⟩⟩)]
              exact ⟨c, List.mem_cons_of_mem _ hc, hm⟩
        · rw [if_pos herr] at h
          cases h

/-! ### The body bytes of a stream -/

/-- The body bytes that the vendored parser finds in a stream, read by read into a buffer that
keeps what was not parsed; `stops` are the parsers whose message is given up. -/
def streamBody (answer : Mark → Bytes → Int) (stops : HttpParser → Bool) (bufferSize : Nat) :
    Nat → HttpParser → Found → Bytes → Link → Nat
  | 0, _, f, _, _ => f.bytes
  | fuel + 1, p, f, data, l =>
    match Link.read (bufferSize - data.length) l with
    | .ok (some got) l' =>
      if got = [] then f.bytes
      else
        let e := http_parser_execute (countBody answer) p (data ++ got) f
        let unparsed := (data ++ got).drop e.parsed
        if stops e.parser ∨ unparsed.length = bufferSize ∨ e.app.complete then e.app.bytes
        else streamBody answer stops bufferSize fuel e.parser e.app unparsed l'
    | _ => f.bytes

/-- **The calls of a run find the body bytes of the stream.** -/
theorem totalBody_eq {M : Type} {s : Settings (Target M)} {answer : Mark → Bytes → Int} {size : M → Nat}
    {execute : MessageParser M → Bytes → MessageParser M × Nat × Bytes} {stops : HttpParser → Bool}
    (hsize : Sized s answer size) (hwraps : Wraps execute s stops) (bufferSize fuel : Nat)
    {r : MessageParser M} (hr : r.error = .OK) (data : Bytes) (l : Link) :
    size r.target.data + totalBody answer (executeCalls execute bufferSize fuel r data l) =
      streamBody answer stops bufferSize fuel r.parser (found size r.target) data l := by
  induction fuel generalizing r data l with
  | zero => rfl
  | succ fuel ih =>
    cases hread : Link.read (bufferSize - data.length) l with
    | ok got l' =>
      rcases got with _ | got
      · rw [executeCalls, streamBody, hread]
        rfl
      · by_cases hne : got = []
        · rw [executeCalls, streamBody, hread]
          dsimp only
          rw [if_pos hne, if_pos hne]
          rfl
        · have hcall := execute_maps hsize r.parser (data ++ got) r.target
          have hafter : size (execute r (data ++ got)).1.target.data =
              size r.target.data + bodyBytes answer r.parser (data ++ got) := by
            rw [hwraps.target, size_execute hsize]
          have herror := hwraps.error r (data ++ got)
          have hmoved := hwraps.moved r (data ++ got)
          have hnext := fun h => ih (r := (execute r (data ++ got)).1) h
          rw [hwraps.parsed] at hmoved
          rw [executeCalls_of_read execute fuel r hread hne, totalBody_cons, ← Nat.add_assoc, streamBody, hread]
          dsimp only
          rw [if_neg hne, ← hafter, hcall, hwraps.parsed]
          simp only [Executed.map, ← hwraps.parser, ← hwraps.target, List.length_drop]
          by_cases hstop : (execute r (data ++ got)).1.error = .OK
          · rw [hmoved hstop]
            simp only [(herror.mp hstop).2, hstop, ne_eq, not_true_eq_false, false_or, Bool.false_eq_true, found]
            split
            · rfl
            · exact hnext hstop _ _
          · have hgive : stops (execute r (data ++ got)).1.parser = true := by
              rw [← Bool.not_eq_false]
              exact fun h => hstop (herror.mpr ⟨hr, h⟩)
            rw [if_pos (.inl hstop), if_pos (.inl hgive)]
            rfl
    | hang | fault =>
      rw [executeCalls, streamBody, hread]
      rfl

/-! ### Runs within a size -/

/-- **A run that keeps to the largest body size**: no callback of its calls leaves a larger body, no
larger body is returned, and when more body bytes come in than that nothing is returned and
the stream is closed. -/
structure BodyWithin {M : Type} (s : Settings (Target M)) (answer : Mark → Bytes → Int) (size : M → Nat)
    (maxBodySize : Nat) (calls : List (MessageParser M × Bytes)) (result : Res (Option M)) : Prop where
  bounded : ∀ c ∈ calls, ∀ t ∈ states s c.1.parser c.2 c.1.target, size t.data ≤ maxBodySize
  returned : ∀ m l', result = .ok (some m) l' → size m ≤ maxBodySize
  refused : maxBodySize < totalBody answer calls → ∃ l' : Link, result = .ok none { l' with closed := true }

section Within

variable {M : Type} {s : Settings (Target M)} {answer : Mark → Bytes → Int} {size : M → Nat}
  {execute : MessageParser M → Bytes → MessageParser M × Nat × Bytes} {stops : HttpParser → Bool} {done : M → M}
  (hsize : Sized s answer size) (hwraps : Wraps execute s stops) (hdone : ∀ m, size (done m) = size m)
include hsize hwraps hdone

/-- A run from a parser without a body keeps to the largest body size exactly when the body bytes of its
calls add up to no more. -/
theorem bodyWithin_iff (bufferSize maxBodySize fuel : Nat) {r : MessageParser M} (hr : size r.target.data = 0)
    (data : Bytes) (l : Link) :
    BodyWithin s answer size maxBodySize (executeCalls execute bufferSize fuel r data l)
        (receiveLoop execute done bufferSize fuel r data l) ↔
      totalBody answer (executeCalls execute bufferSize fuel r data l) ≤ maxBodySize := by
  have hstates := executeCalls_le_iff hsize hwraps bufferSize fuel r data l
    (show size r.target.data ≤ maxBodySize by omega)
  rw [hr, Nat.zero_add] at hstates
  constructor
  · exact fun h => hstates.mp h.bounded
  · intro htotal
    refine ⟨hstates.mpr htotal, fun m l' h => ?_, fun hlt => absurd htotal (by omega)⟩
    obtain ⟨c, hc, rfl⟩ := receiveLoop_returned h
    have hle := size_call_le hsize hwraps bufferSize fuel r data l c hc
    rw [hdone]
    omega

end Within

/-- The calls of `execute` in `recvRequest`. -/
def requestCalls (bufferSize : Nat) (l : Link) : List (HttpRequestParser × Bytes) :=
  executeCalls HttpRequestParser.execute bufferSize (l.input.length + 1) HttpRequestParser.new [] l

/-- The calls of `execute` in `recvResponse`. -/
def responseCalls (bufferSize : Nat) (l : Link) : List (HttpResponseParser × Bytes) :=
  executeCalls HttpResponseParser.execute bufferSize (l.input.length + 1) HttpResponseParser.new [] l

/-- `init` leaves the body. -/
theorem body_init (r : HttpRequest) : r.init.body = r.body := by
  unfold HttpRequest.init
  dsimp only
  split
  · rfl
  · split <;> rfl

/-- The body bytes that the vendored parser finds in a stream with a request. -/
def requestBody (bufferSize : Nat) (l : Link) : Nat :=
  streamBody requestAnswer requestStops bufferSize (l.input.length + 1) (http_parser_init .HTTP_REQUEST)
    .nothing [] l

/-- The body bytes that the vendored parser finds in a stream with a response. -/
def responseBody (bufferSize : Nat) (l : Link) : Nat :=
  streamBody responseAnswer responseStops bufferSize (l.input.length + 1) (http_parser_init .HTTP_RESPONSE)
    .nothing [] l

/-- What is told of a request's body over all reads. -/
theorem totalBody_request (bufferSize : Nat) (l : Link) :
    totalBody requestAnswer (requestCalls bufferSize l) = requestBody bufferSize l := by
  have hbytes := totalBody_eq sized_request wraps_request bufferSize (l.input.length + 1)
    (r := HttpRequestParser.new) rfl [] l
  exact (Nat.zero_add _).symm.trans hbytes

/-- What is told of a response's. -/
theorem totalBody_response (bufferSize : Nat) (l : Link) :
    totalBody responseAnswer (responseCalls bufferSize l) = responseBody bufferSize l := by
  have hbytes := totalBody_eq sized_response wraps_response bufferSize (l.input.length + 1)
    (r := HttpResponseParser.new) rfl [] l
  exact (Nat.zero_add _).symm.trans hbytes

/-- **`recvRequest` and `recvResponse` keep to a largest body size exactly when** the body bytes that
the vendored parser finds in the stream are no more. -/
theorem recv_bodyWithin_iff (bufferSize maxBodySize : Nat) (l : Link) :
    (BodyWithin httpParserSettings1 requestAnswer (fun r => r.body.length) maxBodySize (requestCalls bufferSize l)
        (recvRequest bufferSize l) ↔ requestBody bufferSize l ≤ maxBodySize) ∧
    (BodyWithin httpParserSettings2 responseAnswer (fun r => r.body.length) maxBodySize (responseCalls bufferSize l)
        (recvResponse bufferSize l) ↔ responseBody bufferSize l ≤ maxBodySize) := by
  rw [← totalBody_request, ← totalBody_response]
  constructor
  · rw [recvRequest, recvRequestLoop_eq]
    exact bodyWithin_iff sized_request wraps_request (fun r => by rw [body_init]) bufferSize maxBodySize _
      rfl [] l
  · rw [recvResponse, recvResponseLoop_eq]
    exact bodyWithin_iff sized_response wraps_response (fun _ => rfl) bufferSize maxBodySize _ rfl [] l

/-- A request with a body of five bytes, in one read. -/
def helloLink : Link where
  input := str "POST /p HTTP/1.1\r\nContent-Length: 5\r\n\r\nhello"
  reads := []
  output := []
  writes := []
  closed := false

/-- The body of the request that is returned. -/
def returnedBody : Res (Option HttpRequest) → Option Bytes
  | .ok m _ => m.map fun r => r.body
  | _ => none

/-- With a largest body size of four, a request with a body of five bytes is returned all the same. -/
theorem recvRequest_oversized :
    requestBody 4096 helloLink = 5 ∧
      ¬ BodyWithin httpParserSettings1 requestAnswer (fun r => r.body.length) 4 (requestCalls 4096 helloLink)
        (recvRequest 4096 helloLink) := by
  have htotal : requestBody 4096 helloLink = 5 := by decide
  have hgot : returnedBody (recvRequest 4096 helloLink) = some (str "hello") := by decide
  refine ⟨htotal, fun h => ?_⟩
  cases hres : recvRequest 4096 helloLink with
  | ok m l' =>
    rw [hres] at hgot
    obtain ⟨r, rfl, hbody⟩ := Option.map_eq_some_iff.mp hgot
    have hle := h.returned r l' hres
    rw [hbody] at hle
    exact absurd hle (by decide)
  | fault => rw [hres] at hgot; cases hgot
  | hang => rw [hres] at hgot; cases hgot

end Http
end Wuchat
