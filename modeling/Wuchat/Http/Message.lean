/-
# HTTP requests and responses

`http/http.h` and `http/http.cpp`: the header map ordered by
`CaseInsensitiveLess`, the `HttpRequest` and `HttpResponse` records with the
defaults of their constructors, the accessors the sessions use, and the texts
`HttpRequest::dump` and `HttpResponse::dump` print.

`m_headers[key] = val` keeps the spelling of a key that is already there, and a
lookup ignores the case of ASCII letters and everything past a NUL
(`caseLess_keyed`).  The `m_url` field is left out.
-/

import Mathlib.Algebra.Group.Int.Defs
import Mathlib.Algebra.Group.Nat.Defs
import Wuchat.Foundation.CString

namespace Wuchat
namespace Http

open Foundation

/-- `HttpMethod`: the methods of `HTTP_METHOD_MAP` in the order of their numbers. -/
inductive HttpMethod
  | DELETE | GET | HEAD | POST | PUT | CONNECT | OPTIONS | TRACE | COPY | LOCK | MKCOL | MOVE
  | PROPFIND | PROPPATCH | SEARCH | UNLOCK | BIND | REBIND | UNBIND | ACL | REPORT | MKACTIVITY
  | CHECKOUT | MERGE | MSEARCH | NOTIFY | SUBSCRIBE | UNSUBSCRIBE | PATCH | PURGE | MKCALENDAR
  | LINK | UNLINK | SOURCE | INVALID_METHOD
  deriving DecidableEq, Repr

/-- `MapType`: header names to values, ordered by `CaseInsensitiveLess`. -/
abbrev MapType := OrdMap Bytes Bytes

/-- `m.find(key)` on a map ordered by `CaseInsensitiveLess`. -/
def MapType.find (m : MapType) (key : Bytes) : Option Bytes := OrdMap.find caseLess key m

/-- `m[key] = val` on a map ordered by `CaseInsensitiveLess`. -/
def MapType.set (m : MapType) (key val : Bytes) : MapType := OrdMap.set caseLess key val m

/-- Keys that differ in case only are one key. -/
theorem MapType.find_set_self (m : MapType) {k k' : Bytes} (v : Bytes) (h : caseFold k' = caseFold k) :
    (m.set k v).find k' = some v :=
  OrdMap.find_set_self caseLess_keyed h v m

/-- The other headers are left. -/
theorem MapType.find_set_of_ne (m : MapType) {k k' : Bytes} (v : Bytes) (h : caseFold k' ≠ caseFold k) :
    (m.set k v).find k' = m.find k' :=
  OrdMap.find_set_of_ne caseLess_keyed h v m

/-- `HttpRequest`. -/
structure HttpRequest where
  close : Bool
  webSocket : Bool
  status : Nat
  method : HttpMethod
  version : Nat
  path : Bytes
  query : Bytes
  fragment : Bytes
  body : Bytes
  headers : MapType
  params : MapType
  cookies : MapType
  deriving DecidableEq, Repr

/-- `HttpRequest::HttpRequest(version = 0x11, close = true)`. -/
def HttpRequest.new (version : Nat := 0x11) (close : Bool := true) : HttpRequest where
  close := close
  webSocket := false
  status := 0
  method := .GET
  version := version
  path := str "/"
  query := []
  fragment := []
  body := []
  headers := []
  params := []
  cookies := []

/-- `HttpResponse`. -/
structure HttpResponse where
  status : Nat
  version : Nat
  close : Bool
  webSocket : Bool
  body : Bytes
  reason : Bytes
  headers : MapType
  cookies : List Bytes
  deriving DecidableEq, Repr

/-- `HttpResponse::HttpResponse(version = 0x11, close = true)`. -/
def HttpResponse.new (version : Nat := 0x11) (close : Bool := true) : HttpResponse where
  status := 200
  version := version
  close := close
  webSocket := false
  body := []
  reason := []
  headers := []
  cookies := []

namespace HttpRequest

/-- `getHeader(key, def = "")`. -/
def getHeader (r : HttpRequest) (key : Bytes) (dflt : Bytes := []) : Bytes :=
  (r.headers.find key).getD dflt

/-- `setHeader(key, val)`. -/
def setHeader (r : HttpRequest) (key val : Bytes) : HttpRequest :=
  { r with headers := r.headers.set key val }

/-- `appendBody(body)`. -/
def appendBody (r : HttpRequest) (body : Bytes) : HttpRequest := { r with body := r.body ++ body }

/-- `createResponse()`. -/
def createResponse (r : HttpRequest) : HttpResponse := .new r.version r.close

/-- `init()`: a `connection` header decides `m_close`. -/
def init (r : HttpRequest) : HttpRequest :=
  let conn := r.getHeader (str "connection")
  if conn.isEmpty then r
  else if strcasecmp conn (str "keep-alive") = 0 then { r with close := false }
  else { r with close := true }

/-- Setting a header is seen under every spelling of its name. -/
theorem getHeader_setHeader_self (r : HttpRequest) {k k' : Bytes} (v : Bytes)
    (h : caseFold k' = caseFold k) : (r.setHeader k v).getHeader k' = v := by
  rw [getHeader, setHeader, MapType.find_set_self _ v h, Option.getD_some]

end HttpRequest

/-- The digits of a number, `os << n`. -/
def decimal (n : Nat) : Bytes := (Nat.toDigits 10 n).map fun c => UInt8.ofNat c.toNat

/-- A number of at most as many digits. -/
theorem length_decimal_le {n k : Nat} (h : n < 10 ^ k) (hk : 0 < k) : (decimal n).length ≤ k := by
  rw [decimal, List.length_map]
  exact (Nat.length_toDigits_le_iff (by decide) hk).2 h

/-- The value of a string of digits. -/
def digits? : Bytes → Option Nat
  | [] => none
  | ds => ds.foldlM (fun n c => if 48 ≤ c ∧ c ≤ 57 then some (10 * n + (c.toNat - 48)) else none) 0

/-- `boost::lexical_cast<int>`: an optional sign and digits that fit an `int`,
and nothing else. -/
def lexicalCastInt (s : Bytes) : Option Int :=
  let v : Option Int := match s with
    | 43 :: ds => (digits? ds).map Int.ofNat
    | 45 :: ds => (digits? ds).map fun n => -Int.ofNat n
    | ds => (digits? ds).map Int.ofNat
  v.filter fun n => -2 ^ 31 ≤ n ∧ n < 2 ^ 31

/-- `getHeaderAs<int>(key, def = 0)`: a missing header, or one that does not
convert, gives the default. -/
def HttpRequest.getHeaderAsInt (r : HttpRequest) (key : Bytes) (dflt : Int := 0) : Int :=
  match r.headers.find key with
  | none => dflt
  | some v => (lexicalCastInt v).getD dflt

/-- `HTTP_STATUS_MAP`. -/
def statusMap : List (Nat × String) :=
  [(100, "Continue"), (101, "Switching Protocols"), (102, "Processing"), (200, "OK"),
   (201, "Created"), (202, "Accepted"), (203, "Non-Authoritative Information"),
   (204, "No Content"), (205, "Reset Content"), (206, "Partial Content"), (207, "Multi-Status"),
   (208, "Already Reported"), (226, "IM Used"), (300, "Multiple Choices"),
   (301, "Moved Permanently"), (302, "Found"), (303, "See Other"), (304, "Not Modified"),
   (305, "Use Proxy"), (307, "Temporary Redirect"), (308, "Permanent Redirect"),
   (400, "Bad Request"), (401, "Unauthorized"), (402, "Payment Required"), (403, "Forbidden"),
   (404, "Not Found"), (405, "Method Not Allowed"), (406, "Not Acceptable"),
   (407, "Proxy Authentication Required"), (408, "Request Timeout"), (409, "Conflict"),
   (410, "Gone"), (411, "Length Required"), (412, "Precondition Failed"),
   (413, "Payload Too Large"), (414, "URI Too Long"), (415, "Unsupported Media Type"),
   (416, "Range Not Satisfiable"), (417, "Expectation Failed"), (421, "Misdirected Request"),
   (422, "Unprocessable Entity"), (423, "Locked"), (424, "Failed Dependency"),
   (426, "Upgrade Required"), (428, "Precondition Required"), (429, "Too Many Requests"),
   (431, "Request Header Fields Too Large"), (451, "Unavailable For Legal Reasons"),
   (500, "Internal Server Error"), (501, "Not Implemented"), (502, "Bad Gateway"),
   (503, "Service Unavailable"), (504, "Gateway Timeout"), (505, "HTTP Version Not Supported"),
   (506, "Variant Also Negotiates"), (507, "Insufficient Storage"), (508, "Loop Detected"),
   (510, "Not Extended"), (511, "Network Authentication Required")]

/-- `HttpStatusToString`. -/
def HttpStatusToString (s : Nat) : Bytes :=
  match statusMap.find? fun e => e.1 = s with
  | some e => str e.2
  | none => str "<unknown>"

/-- The end of a line. -/
def crlf : Bytes := str "\r\n"

/-- The number of a method: `num` of `HTTP_METHOD_MAP`, and the one after the last for
`INVALID_METHOD`. -/
def HttpMethod.num (m : HttpMethod) : Nat := m.ctorIdx

/-- `s_method`: the names of `HTTP_METHOD_MAP`. -/
def s_method : List Bytes :=
  ["DELETE", "GET", "HEAD", "POST", "PUT", "CONNECT", "OPTIONS", "TRACE", "COPY", "LOCK", "MKCOL",
   "MOVE", "PROPFIND", "PROPPATCH", "SEARCH", "UNLOCK", "BIND", "REBIND", "UNBIND", "ACL", "REPORT",
   "MKACTIVITY", "CHECKOUT", "MERGE", "M-SEARCH", "NOTIFY", "SUBSCRIBE", "UNSUBSCRIBE", "PATCH",
   "PURGE", "MKCALENDAR", "LINK", "UNLINK", "SOURCE"].map str

/-- `HttpMethodToString`. -/
def HttpMethodToString (m : HttpMethod) : Bytes :=
  let idx := m.num
  -- `s_method->size()` is the length of the first name, not the number of names
  if (s_method.headD []).length ≤ idx then str "<unknown>" else s_method.getD idx []

namespace HttpRequest

/-- One line of the header loop of `dump`: nothing for the `Connection` entry of a request
that is not a web socket's, and for the `content-length` entry of one with a body. -/
def dumpHeader (r : HttpRequest) (e : Bytes × Bytes) : Bytes :=
  if !r.webSocket ∧ strcasecmp e.1 (str "Connection") = 0 then []
  else if !r.body.isEmpty ∧ strcasecmp e.1 (str "content-length") = 0 then []
  else e.1 ++ str ": " ++ e.2 ++ crlf

/-- `HttpRequest::dump`. -/
def dump (r : HttpRequest) : Bytes :=
  HttpMethodToString r.method ++ str " " ++ r.path ++ (if r.query.isEmpty then [] else str "?") ++
    r.query ++ (if r.fragment.isEmpty then [] else str "#") ++ r.fragment ++ str " HTTP/" ++
    decimal (r.version / 16) ++ str "." ++ decimal (r.version % 16) ++ crlf ++
    (if r.webSocket then []
      else str "Connection: " ++ (if r.close then str "close" else str "keep-alive") ++ crlf) ++
    r.headers.flatMap r.dumpHeader ++
    (if r.body.isEmpty then crlf
      else str "content-length: " ++ decimal r.body.length ++ crlf ++ crlf ++ r.body)

end HttpRequest

namespace HttpResponse

/-- `setHeader(key, val)`. -/
def setHeader (r : HttpResponse) (key val : Bytes) : HttpResponse :=
  { r with headers := r.headers.set key val }

/-- `appendBody(body)`. -/
def appendBody (r : HttpResponse) (body : Bytes) : HttpResponse := { r with body := r.body ++ body }

/-- One line of the header loop of `dump`: nothing for the `connection` entry
of a response that is not a web socket's. -/
def dumpHeader (r : HttpResponse) (e : Bytes × Bytes) : Bytes :=
  if !r.webSocket ∧ strcasecmp e.1 (str "connection") = 0 then []
  else e.1 ++ str ": " ++ e.2 ++ crlf

/-- `HttpResponse::dump`. -/
def dump (r : HttpResponse) : Bytes :=
  str "HTTP/" ++ decimal (r.version / 16) ++ str "." ++ decimal (r.version % 16) ++ str " " ++
    decimal r.status ++ str " " ++
    (if r.reason.isEmpty then HttpStatusToString r.status else r.reason) ++ crlf ++
    (if r.webSocket then []
      else str "connection: " ++ (if r.close then str "close" else str "keep-alive") ++ crlf) ++
    r.headers.flatMap r.dumpHeader ++
    (if r.body.isEmpty then crlf
      else str "content-length: " ++ decimal r.body.length ++ crlf ++ crlf ++ r.body)

end HttpResponse

example : lexicalCastInt (str "13") = some 13 ∧ lexicalCastInt (str " 13") = none := by decide

end Http
end Wuchat
