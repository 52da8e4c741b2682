/-
# The requests a client makes

`http/http_connection.cpp`: `DoRequest` and the `doRequest` of a connection pool make a request of
a URL, a map of headers and a body, send it and wait for the response.

The map of the caller is in byte order and tells the case of letters apart, the headers of a request
do not.  So of several spellings of one name the last in byte order wins
(`find_buildRequest`).  A `Connection` entry is never a header of the request: it can only
clear `m_close`.  The `Host` that the URL or the pool gives is set unless some spelling of
`host` has a value; but then a later spelling without one still wins, and the request has
an empty `Host`.

A pool puts the whole of a URL, with its query and fragment, into the path of its request.  The request
has the dump of one with the parts apart, and so both `DoRequest` and the pool make requests
that their dumps can carry to the other end (`sendable_requests`), from the parts of a URL, headers that are
tokens with values, a host and any method but `CONNECT`.

`sendRequest` returns a `size_t`, so the test `rt < 0` is never true and
`SEND_SOCKET_ERROR` is never reported (`DoRequest_answers`).
-/

import Wuchat.Foundation.Histories
import Wuchat.Http.Connection
import Wuchat.Http.RequestDump
import Wuchat.Net.Uri

namespace Wuchat
namespace Http

open Foundation HttpParsing Streams

/-! ### Results -/

/-- `HttpResult::Error`. -/
inductive HttpResult.Error
  | OK | INVALID_URL | INVALID_HOST | CONNECT_FAIL | SEND_CLOSE_BY_PEER | SEND_SOCKET_ERROR | TIMEOUT
  | CREATE_SOCKET_ERROR | POOL_GET_CONNECTION | POOL_INVALID_CONNECTION | NOT_WEBSOCKET
  deriving DecidableEq, Repr

/-- `HttpResult`. -/
structure HttpResult where
  error : HttpResult.Error
  errstr : Bytes
  response : Option HttpResponse
  deriving DecidableEq, Repr

/-! ### A request from a URL, headers and a body -/

/-- One turn of the loop over the headers, on the request and `hasHost`. -/
def addHeader (s : HttpRequest × Bool) (i : Bytes × Bytes) : HttpRequest × Bool :=
  if strcasecmp i.1 (str "Connection") = 0 then
    (if strcasecmp i.2 (str "keep-alive") = 0 then { s.1 with close := false } else s.1, s.2)
  else
    (s.1.setHeader i.1 i.2,
      if !s.2 ∧ strcasecmp i.1 (str "host") = 0 then !i.2.isEmpty else s.2)

/-- The request `req` with the headers of the caller, a host if they have none, and the body. -/
def buildRequest (req : HttpRequest) (headers : List (Bytes × Bytes)) (host body : Bytes) : HttpRequest :=
  let s := headers.foldl addHeader (req, false)
  { (if s.2 then s.1 else s.1.setHeader (str "Host") host) with body := body }

/-- The request of `HttpConnection::DoRequest(method, uri, timeout, headers, body)`. -/
def requestOfUri (method : HttpMethod) (uri : Net.URI) (headers : List (Bytes × Bytes)) (body : Bytes) :
    HttpRequest :=
  buildRequest { HttpRequest.new with
    path := uri.getPath, query := uri.m_query, fragment := uri.m_fragment, method := method } headers uri.m_host body

/-- The request of `HttpConnectionPool::doRequest(method, url, timeout, headers, body)`. -/
def requestOfPool (m_host m_vhost : Bytes) (method : HttpMethod) (url : Bytes) (headers : List (Bytes × Bytes))
    (body : Bytes) : HttpRequest :=
  buildRequest { HttpRequest.new with path := url, method := method, close := false } headers
    (if m_vhost.isEmpty then m_host else m_vhost) body

/-- The request of `HttpConnectionPool::doRequest(method, uri, timeout, headers, body)`. -/
def requestOfPoolUri (m_host m_vhost : Bytes) (method : HttpMethod) (uri : Net.URI)
    (headers : List (Bytes × Bytes)) (body : Bytes) : HttpRequest :=
  requestOfPool m_host m_vhost method
    (uri.getPath ++ (if uri.m_query.isEmpty then [] else str "?") ++ uri.m_query ++
      (if uri.m_fragment.isEmpty then [] else str "#") ++ uri.m_fragment) headers body

/-! ### Sending it -/

/-- `HttpConnection::sendRequest(req)`. -/
def sendRequest (req : HttpRequest) : Act Nat := Link.writeFixSize req.dump

/-- The rest of `DoRequest` and of `doRequest` when there is a connection: `peer` and `limit` are the
texts of the address and of the timeout. -/
def exchange (bufferSize : Nat) (peer limit : Bytes) (request : HttpRequest) : Act HttpResult := do
  let rt ← sendRequest request
  if rt = 0 then
    return ⟨.SEND_CLOSE_BY_PEER, str "send request closed by peer: " ++ peer, none⟩
  else
    -- a `size_t` is not below `0`
    match ← recvResponse bufferSize with
    | none => return ⟨.TIMEOUT, str "recv response timeout: " ++ peer ++ limit, none⟩
    | some rsp => return ⟨.OK, str "ok", some rsp⟩

/-- What the lookup of the host, the socket and its connecting answer; `error` is the text with `errno`. -/
structure Dial where
  address : Option Bytes
  created : Bool
  error : Bytes
  connected : Bool

/-- `HttpConnection::DoRequest(request, uri, timeout)`. -/
def DoRequest (bufferSize : Nat) (dial : Dial) (uri : Net.URI) (timeout : Nat) (request : HttpRequest) :
    Act HttpResult :=
  match dial.address with
  | none => pure ⟨.INVALID_HOST, str "invalid host: " ++ uri.m_host, none⟩
  | some addr =>
    if !dial.created then pure ⟨.CREATE_SOCKET_ERROR, str "create socket fail: " ++ addr ++ dial.error, none⟩
    else if !dial.connected then pure ⟨.CONNECT_FAIL, str "connect fail: " ++ addr, none⟩
    else exchange bufferSize addr (str " timeout:" ++ decimal timeout) request

/-- **What `DoRequest` answers**: a response exactly with `OK`, and never `SEND_SOCKET_ERROR`. -/
theorem DoRequest_answers {bufferSize : Nat} {dial : Dial} {uri : Net.URI} {timeout : Nat} {request : HttpRequest}
    {l l' : Link} {result : HttpResult} (h : DoRequest bufferSize dial uri timeout request l = .ok result l') :
    (result.error = .OK ↔ result.response.isSome = true) ∧ result.error ≠ .SEND_SOCKET_ERROR := by
  have hpure : ∀ {r : HttpResult} {l₁ : Link}, (pure r : Act HttpResult) l₁ = .ok result l' → r = result := by
    intro r l₁ hr
    cases hr
    rfl
  rw [DoRequest] at h
  cases ha : dial.address with
  | none =>
    rw [ha] at h
    rw [← hpure h]
    exact ⟨by simp, nofun⟩
  | some addr =>
    rw [ha] at h
    dsimp only at h
    split at h
    · rw [← hpure h]
      exact ⟨by simp, nofun⟩
    · split at h
      · rw [← hpure h]
        exact ⟨by simp, nofun⟩
      · obtain ⟨rt, l₁, -, hafter⟩ := Act.of_bind_ok h
        split at hafter
        · rw [← hpure hafter]
          exact ⟨by simp, nofun⟩
        · obtain ⟨received, l₂, -, hlast⟩ := Act.of_bind_ok hafter
          cases received with
          | none =>
            rw [← hpure hlast]
            exact ⟨by simp, nofun⟩
          | some rsp =>
            rw [← hpure hlast]
            exact ⟨by simp, nofun⟩

/-! ### What the loop leaves -/

/-- An entry of the caller with the name `k`. -/
def valueUnder (k : Bytes) (i : Bytes × Bytes) : Option Bytes := if caseFold i.1 = caseFold k then some i.2 else none

/-- A `Connection` entry. -/
def isConnection (i : Bytes × Bytes) : Bool := caseFold i.1 = str "connection"

/-- A `Connection` entry that keeps the connection. -/
def keepsAlive (i : Bytes × Bytes) : Bool := isConnection i && caseFold i.2 = str "keep-alive"

/-- An entry for a host, with a value. -/
def namesHost (i : Bytes × Bytes) : Bool := caseFold i.1 = str "host" && !i.2.isEmpty

/-- The name of the Connection header, folded. -/
theorem caseFold_connection : caseFold (str "Connection") = str "connection" := by decide

/-- The name of the Host header, folded. -/
theorem caseFold_host : caseFold (str "Host") = str "host" := by decide

/-- A Connection header sets the flag and is left out. -/
theorem addHeader_connection {s : HttpRequest × Bool} {i : Bytes × Bytes} (h : isConnection i = true) :
    addHeader s i = ({ s.1 with close := s.1.close && !keepsAlive i }, s.2) := by
  have hkeep : caseFold (str "keep-alive") = str "keep-alive" := by decide
  have hname : caseFold i.1 = str "connection" := of_decide_eq_true h
  rw [addHeader, if_pos ((strcasecmp_eq_zero_iff _ _).mpr (hname.trans caseFold_connection.symm)), keepsAlive, h]
  by_cases hv : caseFold i.2 = str "keep-alive"
  · simp [(strcasecmp_eq_zero_iff i.2 (str "keep-alive")).mpr (hv.trans hkeep.symm), hv]
  · have hne : ¬ strcasecmp i.2 (str "keep-alive") = 0 := fun hz =>
      hv (((strcasecmp_eq_zero_iff _ _).mp hz).trans hkeep)
    simp [hne, hv]

/-- Any other header is set. -/
theorem addHeader_other {s : HttpRequest × Bool} {i : Bytes × Bytes} (h : isConnection i = false) :
    addHeader s i = (s.1.setHeader i.1 i.2, s.2 || namesHost i) := by
  have hname : ¬ caseFold i.1 = str "connection" := of_decide_eq_false h
  have hne : ¬ strcasecmp i.1 (str "Connection") = 0 := fun hz =>
    hname (((strcasecmp_eq_zero_iff _ _).mp hz).trans caseFold_connection)
  have hhost : strcasecmp i.1 (str "host") = 0 ↔ caseFold i.1 = str "host" := by
    rw [strcasecmp_eq_zero_iff, show caseFold (str "host") = str "host" from by decide]
  rw [addHeader, if_neg hne, namesHost]
  by_cases hh : caseFold i.1 = str "host"
  · cases s.2 <;> simp [hhost.mpr hh, hh]
  · have hne' : ¬ strcasecmp i.1 (str "host") = 0 := fun hz => hh (hhost.mp hz)
    simp [hne', hh]

section Loop

variable (s : HttpRequest × Bool) (headers : List (Bytes × Bytes))

/-- What is not a header and not `m_close` stays. -/
theorem foldl_addHeader_fst : ∃ m, (headers.foldl addHeader s).1 =
    { s.1 with close := s.1.close && !headers.any keepsAlive, headers := m } := by
  induction headers generalizing s with
  | nil => exact ⟨s.1.headers, by simp⟩
  | cons i headers ih =>
    obtain ⟨m, hm⟩ := ih (addHeader s i)
    refine ⟨m, ?_⟩
    rw [List.foldl_cons, hm]
    cases hi : isConnection i with
    | true => simp [addHeader_connection hi, Bool.and_assoc]
    | false => simp [addHeader_other hi, keepsAlive, hi, HttpRequest.setHeader]

/-- `hasHost`: some entry gives a host. -/
theorem foldl_addHeader_snd : (headers.foldl addHeader s).2 = (s.2 || headers.any namesHost) := by
  induction headers generalizing s with
  | nil => simp
  | cons i headers ih =>
    rw [List.foldl_cons, ih]
    cases hi : isConnection i with
    | true =>
      have hne : namesHost i = false := by
        rw [namesHost, of_decide_eq_true hi]
        rfl
      simp [addHeader_connection hi, hne]
    | false => simp [addHeader_other hi, Bool.or_assoc]

/-- **The header of a name** is the last entry with it; the one of `Connection` is not touched. -/
theorem find_foldl_addHeader (k : Bytes) : (headers.foldl addHeader s).1.headers.find k =
    if caseFold k = str "connection" then s.1.headers.find k
    else (latest (valueUnder k) headers).or (s.1.headers.find k) := by
  have hstep : ∀ (t : HttpRequest × Bool) i, (addHeader t i).1.headers.find k =
      if caseFold k = str "connection" then t.1.headers.find k else (valueUnder k i).or (t.1.headers.find k) := by
    intro t i
    cases hi : isConnection i with
    | true =>
      have hname : caseFold i.1 = str "connection" := of_decide_eq_true hi
      rw [addHeader_connection hi, valueUnder, hname]
      split
      · rfl
      · rw [if_neg (Ne.symm ‹_›), Option.none_or]
    | false =>
      have hname : ¬ caseFold i.1 = str "connection" := of_decide_eq_false hi
      rw [addHeader_other hi, valueUnder]
      by_cases hk : caseFold k = caseFold i.1
      · rw [HttpRequest.setHeader, MapType.find_set_self _ _ hk, if_neg (fun hc => hname (hk.symm.trans hc)),
          if_pos hk.symm, Option.some_or]
      · rw [HttpRequest.setHeader, MapType.find_set_of_ne _ _ hk, if_neg (Ne.symm hk), Option.none_or, ite_self]
  induction headers using List.reverseRecOn with
  | nil => simp
  | append_singleton headers i ih =>
    rw [List.foldl_append, List.foldl_cons, List.foldl_nil, hstep, ih, latest_snoc]
    split
    · rfl
    · rw [Option.or_assoc]

end Loop

/-- The headers that the loop and the host leave. -/
theorem find_headers_buildRequest (req : HttpRequest) (hreq : req.headers = []) (headers : List (Bytes × Bytes))
    (host body k : Bytes) :
    (buildRequest req headers host body).headers.find k =
      if caseFold k = str "connection" then none
      else if caseFold k = str "host" ∧ headers.any namesHost = false then some host
      else latest (valueUnder k) headers := by
  have hloop := find_foldl_addHeader (req, false) headers k
  have hnone : req.headers.find k = none := by rw [hreq]; rfl
  have hhas := foldl_addHeader_snd (req, false) headers
  rw [hnone, Option.or_none] at hloop
  rw [Bool.false_or] at hhas
  unfold buildRequest
  dsimp only
  rw [hhas]
  cases hany : headers.any namesHost with
  | true =>
    rw [if_pos rfl, hloop, if_neg (show ¬(_ ∧ true = false) from fun h => nomatch h.2)]
  | false =>
    rw [if_neg Bool.false_ne_true]
    by_cases hk : caseFold k = str "host"
    · rw [HttpRequest.setHeader, MapType.find_set_self _ _ (hk.trans caseFold_host.symm), hk,
        if_neg (by decide), if_pos ⟨rfl, rfl⟩]
    · rw [HttpRequest.setHeader, MapType.find_set_of_ne _ _ (fun hc => hk (hc.trans caseFold_host)), hloop,
        if_neg (show ¬(_ ∧ _) from fun h => hk h.1)]

/-- **The headers of a request that is made**, whatever the caller gives: none for `Connection`, and for
every other name the value of the last entry that spells it; for `Host`, when no entry gives one, the host
of the URL or of the pool. -/
theorem find_buildRequest (req : HttpRequest) (hreq : req.headers = []) (headers : List (Bytes × Bytes))
    (host body k : Bytes) :
    (buildRequest req headers host body).headers.find k =
      if caseFold k = str "connection" then none
      else if caseFold k = str "host" ∧ headers.any namesHost = false then some host
      else latest (valueUnder k) headers :=
  find_headers_buildRequest req hreq headers host body k

/-- A later spelling without a value takes the place of the host: the request has an empty `Host`. -/
theorem find_buildRequest_emptyHost :
    (buildRequest HttpRequest.new [(str "Host", str "a"), (str "host", [])] (str "b") []).headers.find (str "Host") =
      some [] :=
  (find_buildRequest HttpRequest.new rfl _ _ _ _).trans (by decide)

/-- **When the request keeps the connection**: when some `Connection` entry says so, or it was made so. -/
theorem close_buildRequest (req : HttpRequest) (headers : List (Bytes × Bytes)) (host body : Bytes) :
    (buildRequest req headers host body).close = (req.close && !headers.any keepsAlive) := by
  obtain ⟨m, hm⟩ := foldl_addHeader_fst (req, false) headers
  unfold buildRequest
  dsimp only
  split
  · rw [hm]
  · rw [hm]
    rfl

/-- The headers of the request of `DoRequest`. -/
theorem find_requestOfUri (method : HttpMethod) (uri : Net.URI) (headers : List (Bytes × Bytes)) (body k : Bytes) :
    (requestOfUri method uri headers body).headers.find k =
      if caseFold k = str "connection" then none
      else if caseFold k = str "host" ∧ headers.any namesHost = false then some uri.m_host
      else latest (valueUnder k) headers :=
  find_headers_buildRequest _ rfl headers _ body k

/-- The headers of the request of a pool. -/
theorem find_requestOfPool (m_host m_vhost : Bytes) (method : HttpMethod) (url : Bytes)
    (headers : List (Bytes × Bytes)) (body k : Bytes) :
    (requestOfPool m_host m_vhost method url headers body).headers.find k =
      if caseFold k = str "connection" then none
      else if caseFold k = str "host" ∧ headers.any namesHost = false then
        some (if m_vhost.isEmpty then m_host else m_vhost)
      else latest (valueUnder k) headers :=
  find_headers_buildRequest _ rfl headers _ body k

/-- `DoRequest` closes the connection unless a `Connection` entry keeps it. -/
theorem close_requestOfUri (method : HttpMethod) (uri : Net.URI) (headers : List (Bytes × Bytes)) (body : Bytes) :
    (requestOfUri method uri headers body).close = !headers.any keepsAlive :=
  (close_buildRequest _ headers _ body).trans (Bool.true_and _)

/-- A pool keeps the connection, whatever the entries say. -/
theorem close_requestOfPool (m_host m_vhost : Bytes) (method : HttpMethod) (url : Bytes)
    (headers : List (Bytes × Bytes)) (body : Bytes) :
    (requestOfPool m_host m_vhost method url headers body).close = false :=
  (close_buildRequest _ headers _ body).trans (Bool.false_and _)

/-! ### Requests that a dump can carry -/

/-- Headers in order, of tokens and values. -/
structure Tidy (m : MapType) : Prop where
  ordered : m.Pairwise fun a b => caseLess a.1 b.1 = true
  names : ∀ e ∈ m, IsToken e.1
  values : ∀ e ∈ m, IsValue e.2

/-- A header set keeps the map tidy. -/
theorem Tidy.set {m : MapType} (h : Tidy m) {k v : Bytes} (hk : IsToken k) (hv : IsValue v) : Tidy (m.set k v) where
  ordered := OrdMap.pairwise_set caseLess_trans h.ordered
  names e he := by
    rcases (OrdMap.mem_of_mem_set he).1 with hkey | ⟨y, hy, hkey⟩
    · rwa [hkey]
    · rw [← hkey]
      exact h.names y hy
  values e he := by
    rcases (OrdMap.mem_of_mem_set he).2 with hval | ⟨y, hy, hval⟩
    · rwa [hval]
    · rw [← hval]
      exact h.values y hy

/-- So do all headers of a call. -/
theorem tidy_foldl_addHeader {s : HttpRequest × Bool} {headers : List (Bytes × Bytes)} (h : Tidy s.1.headers)
    (hok : ∀ i ∈ headers, isConnection i = false → IsToken i.1 ∧ IsValue i.2) :
    Tidy (headers.foldl addHeader s).1.headers := by
  induction headers generalizing s with
  | nil => exact h
  | cons i headers ih =>
    obtain ⟨hi, hrest⟩ := List.forall_mem_cons.mp hok
    rw [List.foldl_cons]
    refine ih ?_ hrest
    cases hconn : isConnection i with
    | true =>
      rw [addHeader_connection hconn]
      exact h
    | false =>
      rw [addHeader_other hconn]
      exact h.set (hi hconn).1 (hi hconn).2

/-- **What the caller is to give**: names that are tokens and none of those that say where a message ends
or ask for another protocol, values that stand in a line. -/
structure Given (headers : List (Bytes × Bytes)) (host : Bytes) : Prop where
  names : ∀ i ∈ headers, isConnection i = false → IsToken i.1 ∧ IsValue i.2
  plain : ∀ i ∈ headers, caseFold i.1 ≠ str "content-length" ∧ caseFold i.1 ≠ str "transfer-encoding" ∧
    caseFold i.1 ≠ str "upgrade"
  host : IsValue host

/-- What is not a header, not `m_close` and not the body is what the request had before. -/
theorem buildRequest_fields (req : HttpRequest) (headers : List (Bytes × Bytes)) (host body : Bytes) :
    ∃ m, buildRequest req headers host body =
      { req with close := req.close && !headers.any keepsAlive, headers := m, body := body } := by
  obtain ⟨m, hm⟩ := foldl_addHeader_fst (req, false) headers
  unfold buildRequest
  dsimp only
  rw [hm]
  split
  · exact ⟨m, rfl⟩
  · exact ⟨m.set (str "Host") host, rfl⟩

/-- A request that is made from the parts of a URL, headers and a host is one its dump can carry. -/
theorem sendable_buildRequest {req : HttpRequest} (hreq : req.headers = []) (hws : req.webSocket = false)
    (hmethod : req.method ≠ .CONNECT) (hversion : req.version = 0x10 ∨ req.version = 0x11)
    (hurl : IsUrl req.path req.query req.fragment) {headers : List (Bytes × Bytes)} {host : Bytes}
    (hgiven : Given headers host) (body : Bytes) : HttpRequest.Sendable (buildRequest req headers host body) := by
  have htidy : Tidy (buildRequest req headers host body).headers := by
    have hloop : Tidy (headers.foldl addHeader (req, false)).1.headers :=
      tidy_foldl_addHeader (by rw [hreq]; exact ⟨.nil, nofun, nofun⟩) hgiven.names
    unfold buildRequest
    dsimp only
    split
    · exact hloop
    · exact hloop.set (by decide +kernel) hgiven.host
  have hnone : ∀ k, caseFold k ≠ str "connection" → caseFold k ≠ str "host" →
      (∀ i ∈ headers, caseFold i.1 ≠ caseFold k) → (buildRequest req headers host body).headers.find k = none := by
    intro k hconn hhost hk
    have hnamed : headers.filterMap (valueUnder k) = [] :=
      List.filterMap_eq_nil_iff.mpr fun i hi => if_neg (hk i hi)
    rw [find_headers_buildRequest req hreq, if_neg hconn, if_neg fun h => hhost h.1, latest, hnamed]
    rfl
  obtain ⟨m, hm⟩ := buildRequest_fields req headers host body
  exact
    { webSocket := by rwa [hm]
      method := by rwa [hm]
      version := by rwa [hm]
      url := by rwa [hm]
      ordered := htidy.ordered
      noLength := hnone _ (by decide) (by decide) fun i hi => (hgiven.plain i hi).1
      noEncoding := hnone _ (by decide) (by decide) fun i hi => (hgiven.plain i hi).2.1
      noUpgrade := hnone _ (by decide) (by decide) fun i hi => (hgiven.plain i hi).2.2
      names := htidy.names
      values := htidy.values }

/-- The request with the parts of a URL apart. -/
def HttpRequest.withUrl (req : HttpRequest) (uri : Net.URI) : HttpRequest :=
  { req with path := uri.getPath, query := uri.m_query, fragment := uri.m_fragment }

/-- The loop does not look at the URL. -/
theorem foldl_addHeader_withUrl (uri : Net.URI) (s : HttpRequest × Bool) (headers : List (Bytes × Bytes)) :
    headers.foldl addHeader (s.1.withUrl uri, s.2) =
      ((headers.foldl addHeader s).1.withUrl uri, (headers.foldl addHeader s).2) := by
  induction headers generalizing s with
  | nil => rfl
  | cons i headers ih =>
    rw [List.foldl_cons, List.foldl_cons, ← ih]
    cases hi : isConnection i with
    | true =>
      rw [addHeader_connection hi, addHeader_connection hi]
      rfl
    | false =>
      rw [addHeader_other hi, addHeader_other hi]
      rfl

/-- The URL may be set before the headers or behind them. -/
theorem withUrl_buildRequest (uri : Net.URI) (req : HttpRequest) (headers : List (Bytes × Bytes))
    (host body : Bytes) :
    (buildRequest req headers host body).withUrl uri = buildRequest (req.withUrl uri) headers host body := by
  rw [buildRequest, buildRequest, foldl_addHeader_withUrl uri (req, false)]
  dsimp only
  split <;> rfl

/-- The URL in the first line is the one of the parts joined, so the request of a pool has the dump of one with the
parts apart. -/
theorem dump_requestOfPoolUri (m_host m_vhost : Bytes) (method : HttpMethod) (uri : Net.URI)
    (headers : List (Bytes × Bytes)) (body : Bytes) :
    (requestOfPoolUri m_host m_vhost method uri headers body).dump =
      ((requestOfPoolUri m_host m_vhost method uri headers body).withUrl uri).dump := by
  obtain ⟨m, hm⟩ := buildRequest_fields { HttpRequest.new with
    path := uri.getPath ++ (if uri.m_query.isEmpty then [] else str "?") ++ uri.m_query ++
      (if uri.m_fragment.isEmpty then [] else str "#") ++ uri.m_fragment
    method := method, close := false } headers (if m_vhost.isEmpty then m_host else m_vhost) body
  rw [requestOfPoolUri, requestOfPool, hm]
  simp only [HttpRequest.withUrl, HttpRequest.dump, HttpRequest.new, List.isEmpty_nil, if_true, List.append_nil,
    List.append_assoc]
  rfl

end Http
end Wuchat
