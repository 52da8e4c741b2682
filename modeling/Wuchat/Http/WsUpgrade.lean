/-
# The handshake refuses the requests it is for

`HttpRequestParser::execute` makes an error of every message that asks for another protocol
(`found upgrade, ignore`), and `recvRequest` closes the connection and returns nothing on an error.
The vendored parser finds this of a request exactly by the headers that `WSSession::handleShake`
asks for.  So the handshake returns nothing, and answers nothing, for every request that
it could accept (`handleShake_refuses`).
-/

import Wuchat.Http.WsShake
import Wuchat.HttpParser.Upgrade

namespace Wuchat
namespace Http

open Foundation HttpParsing Streams

/-! ### The parser -/

/-- A message that asks for another protocol is refused, with whatever callbacks. -/
theorem execute_refused {A : Type} {s : Settings A} (hs : ∀ p a, (s.headersComplete p a).2 = 0) {p : HttpParser}
    (hok : p.http_errno = .OK) (hp : At .s_start_req p .outer) {bytes : Bytes} (hne : bytes ≠ [])
    (h : Reads (At .s_start_req) bytes fun q _ => q.upgrade = true) (a : A) :
    Refused (http_parser_execute s p bytes a).parser := by
  have hrun := h A s hs p .outer ⟨startMarks p.state, a⟩ hp
  rw [execute_of_ok hok hne]
  cases heq : runBytes s bytes p .outer ⟨startMarks p.state, a⟩ with
  | next q loop l =>
    rw [heq] at hrun
    rw [executeLoop_of_next heq]
    exact .inr ((endOfData_upgrade _ loop l).trans hrun)
  | exit q adv l =>
    rw [heq] at hrun
    obtain ⟨hpar, -⟩ := executeLoop_of_exit (n := 0) heq
    rw [hpar]
    exact hrun

/-- The parser object has an error when the vendored parser is refused. -/
theorem HttpRequestParser.error_of_refused {r : HttpRequestParser} {data : Bytes}
    (h : Refused (http_parser_execute httpParserSettings1 r.parser data r.target).parser) :
    (r.execute data).1.error ≠ .OK := by
  intro hok
  obtain ⟨-, hup, herrno⟩ := ok_of_execute hok
  rw [execute_fst] at hup herrno
  rcases h with h | h
  · exact h herrno
  · rw [h] at hup
    cases hup

/-- A read sends nothing. -/
theorem read_output {size : Nat} {l l' : Link} {data : Option Bytes} (h : Link.read size l = .ok data l') :
    l'.output = l.output := by
  unfold Link.read at h
  split at h
  · cases h
    rfl
  split at h
  all_goals
    cases h
    rfl

/-- `recvRequest` returns nothing when what it reads is refused. -/
theorem recvRequest_of_refused {size : Nat} {l l' : Link} {data : Bytes} (hne : data ≠ [])
    (hread : Link.read size l = .ok (some data) l')
    (h : (HttpRequestParser.execute .new data).1.error ≠ .OK) :
    recvRequest size l = .ok none { l' with closed := true } := by
  have hread' : Link.read (size - ([] : Bytes).length) l = .ok (some data) l' := hread
  unfold recvRequest
  rw [recvRequestLoop, Act.bind_ok hread']
  rcases hexec : HttpRequestParser.execute .new data with ⟨r, n, moved⟩
  rw [hexec] at h
  simp only [hne, if_false, List.nil_append, hexec, ne_eq, h, not_false_eq_true, if_true]
  rfl

/-! ### The handshake -/

/-- **A request for a web socket**: a `GET` with the headers the handshake asks for, any URL, and any
further headers. -/
structure ShakeRequest where
  url : Bytes
  headers : List HeaderLine
  url_line : CR ∉ url ∧ LF ∉ url
  upgrade : ∃ h ∈ headers, h.isNamed "Upgrade" = true ∧ h.value.map tolower = str "websocket"
  connection : ∃ h ∈ headers, h.isNamed "Connection" = true ∧ h.value.map tolower = str "upgrade"
  version : ∃ h ∈ headers, h.isNamed "Sec-WebSocket-Version" = true ∧ h.value = str "13"
  key : ∃ h ∈ headers, h.isNamed "Sec-WebSocket-Key" = true ∧ h.value ≠ []

/-- The bytes of the request. -/
def ShakeRequest.bytes (req : ShakeRequest) : Bytes :=
  str "GET " ++ req.url ++ str " HTTP/1.1" ++ crlf ++ req.headers.flatMap HeaderLine.bytes ++ crlf

/-- The vendored parser finds that it asks for another protocol, or has an error. -/
theorem ShakeRequest.reads (req : ShakeRequest) :
    Reads (At .s_start_req) req.bytes fun q _ => q.upgrade = true := by
  have hu : req.headers.any HeaderLine.asksUpgrade = true := by
    obtain ⟨h, hmem, hname, hvalue⟩ := req.upgrade
    refine List.any_eq_true.mpr ⟨h, hmem, Bool.and_eq_true_iff.mpr ⟨hname, bne_iff_ne.mpr fun hnil => ?_⟩⟩
    rw [hnil] at hvalue
    exact absurd hvalue (by decide)
  have hc : req.headers.any HeaderLine.asksConnection = true := by
    obtain ⟨h, hmem, hname, hvalue⟩ := req.connection
    exact List.any_eq_true.mpr ⟨h, hmem, Bool.and_eq_true_iff.mpr ⟨hname, beq_iff_eq.mpr hvalue⟩⟩
  have hline : CR ∉ str "ET " ++ req.url ++ str " HTTP/1.1" ∧ LF ∉ str "ET " ++ req.url ++ str " HTTP/1.1" := by
    obtain ⟨hcr, hlf⟩ := req.url_line
    simp only [List.mem_append, not_or]
    exact ⟨⟨⟨by decide, hcr⟩, by decide⟩, ⟨⟨by decide, hlf⟩, by decide⟩⟩
  have hget : isAlpha (chr 'G') = true := by decide
  exact reads_request hget hline.1 hline.2 req.headers hu hc

/-- **The handshake never succeeds**: `handleShake` closes the connection of every request for a web socket that
comes in one read, returns nothing and sends nothing. -/
theorem handleShake_refuses (sha1sum : Bytes → Bytes) (size : Nat) (req : ShakeRequest) (l l' : Link)
    (hread : Link.read size l = .ok (some req.bytes) l') :
    handleShake sha1sum size l = .ok none { l' with closed := true } ∧ l'.output = l.output := by
  have hne : req.bytes ≠ [] := by
    unfold ShakeRequest.bytes
    simp [crlf, str]
  have herr : (HttpRequestParser.execute .new req.bytes).1.error ≠ .OK :=
    HttpRequestParser.error_of_refused
      (execute_refused (fun _ _ => rfl) rfl ⟨rfl, ⟨rfl, rfl⟩, rfl⟩ hne req.reads _)
  refine ⟨?_, read_output hread⟩
  unfold handleShake
  rw [Act.bind_ok (recvRequest_of_refused hne hread herr)]
  rfl

/-- A header line with one space before the value. -/
def headerLine (name value : String)
    (h : str name ≠ [] ∧ (∀ ch ∈ str name, (token ch).isSome = true) ∧
      (∀ ch ∈ (str value).head?, ch ≠ chr ' ' ∧ ch ≠ 9) ∧ CR ∉ str value ∧ LF ∉ str value) : HeaderLine where
  name := str name
  ows := [chr ' ']
  value := str value
  name_ne := h.1
  name_token := h.2.1
  ows_space := fun _ hch => .inl (List.mem_singleton.mp hch)
  value_head := h.2.2.1
  value_line := h.2.2.2

/-- The headers of a browser's request. -/
def sampleHeaders : List HeaderLine :=
  [headerLine "Host" "chat" (by decide +kernel), headerLine "Upgrade" "websocket" (by decide +kernel),
    headerLine "Connection" "Upgrade" (by decide +kernel),
    headerLine "Sec-WebSocket-Version" "13" (by decide +kernel),
    headerLine "Sec-WebSocket-Key" "dGhlIHNhbXBsZSBub25jZQ==" (by decide +kernel)]

/-- A request as a browser sends it. -/
def sampleShake : ShakeRequest where
  url := str "/chat"
  headers := sampleHeaders
  url_line := by decide
  upgrade := by decide
  connection := by decide
  version := by decide
  key := by decide

/-- A connection on which it comes in one read. -/
def sampleShakeLink : Link := ⟨sampleShake.bytes, [], [], [], false⟩

/-- The statement at the handshake of a browser. -/
theorem handleShake_refuses_sampleShake :
    handleShake (fun bytes => bytes) 4096 sampleShakeLink = .ok none ⟨[], [], [], [], true⟩ :=
  (handleShake_refuses (fun bytes => bytes) 4096 sampleShake sampleShakeLink ⟨[], [], [], [], false⟩
    (by decide +kernel)).1

/-- **A browser's request for a web socket**: the parser object has the request, with headers that the handshake
accepts, and an error, so the handshake returns nothing and sends nothing. -/
theorem shake_found_upgrade :
    let r := (HttpRequestParser.execute .new sampleShake.bytes).1
    r.target.finished = true ∧ r.target.data.method = .GET ∧ shakeAccepts r.target.data = true ∧
      r.error = .UNKNOWN ∧
      handleShake (fun bytes => bytes) 4096 sampleShakeLink = .ok none ⟨[], [], [], [], true⟩ := by
  decide +kernel

end Http
end Wuchat
