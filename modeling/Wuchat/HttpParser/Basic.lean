/-
# The vendored HTTP parser: characters and the parser record

`http/http-parser/http_parser.c` and `http_parser.h`, compiled with
`HTTP_PARSER_STRICT = 1` and `HTTP_MAX_HEADER_SIZE = 80 * 1024`.  This module holds the
character classes, the states and the fields of `struct http_parser`.

`lenient_http_headers` is never set and left out.  The bits of `flags` are fields of their
own (`Flags`).
-/

import Wuchat.Http.Message

namespace Wuchat
namespace HttpParsing

open Foundation Http

/-! ### Characters -/

/-- A character literal as a byte. -/
def chr (c : Char) : UInt8 := UInt8.ofNat c.toNat

/-- `CR`. -/
def CR : UInt8 := 13

/-- `LF`. -/
def LF : UInt8 := 10

/-- `LOWER(c)`. -/
def lower (c : UInt8) : UInt8 := c ||| 0x20

/-- `IS_ALPHA(c)`. -/
def isAlpha (c : UInt8) : Bool := chr 'a' ≤ lower c && lower c ≤ chr 'z'

/-- `IS_NUM(c)`. -/
def isNum (c : UInt8) : Bool := chr '0' ≤ c && c ≤ chr '9'

/-- `IS_ALPHANUM(c)`. -/
def isAlphanum (c : UInt8) : Bool := isAlpha c || isNum c

/-- `IS_HEX(c)`. -/
def isHex (c : UInt8) : Bool := isNum c || (chr 'a' ≤ lower c && lower c ≤ chr 'f')

/-- `IS_MARK(c)`. -/
def isMark (c : UInt8) : Bool := c ∈ str "-_.!~*'()"

/-- `IS_USERINFO_CHAR(c)`. -/
def isUserinfoChar (c : UInt8) : Bool := isAlphanum c || isMark c || c ∈ str "%;:&=+$,"

/-- `IS_HOST_CHAR(c)` in strict mode. -/
def isHostChar (c : UInt8) : Bool := isAlphanum c || c == chr '.' || c == chr '-'

/-- `IS_URL_CHAR(c)` in strict mode: the bits of `normal_url_char`. -/
def isUrlChar (c : UInt8) : Bool := 33 ≤ c && c ≤ 126 && c != chr '#' && c != chr '?'

/-- `TOKEN(c)`, `STRICT_TOKEN(c)`: the entry of `tokens`, and none for a space. -/
def token (c : UInt8) : Option UInt8 :=
  if chr 'A' ≤ c ∧ c ≤ chr 'Z' then some (c + 32)
  else if (chr 'a' ≤ c ∧ c ≤ chr 'z') ∨ isNum c ∨ c ∈ str "!#$%&'*+-.^_`|~" then some c
  else none

/-- `IS_HEADER_CHAR(ch)`. -/
def isHeaderChar (c : UInt8) : Bool := c == CR || c == LF || c == 9 || (31 < c && c != 127)

/-- `unhex[c]`, none for `-1`.  The table has 128 entries for 256 characters, the rest of
it is `0`. -/
def unhex (c : UInt8) : Option Nat :=
  if isNum c then some (c.toNat - 48)
  else if chr 'a' ≤ lower c ∧ lower c ≤ chr 'f' then some (lower c - chr 'a' + 10).toNat
  else if 128 ≤ c then some 0
  else none

/-! ### States -/

/-- `enum state`. -/
inductive State
  | s_dead
  | s_start_req_or_res | s_res_or_resp_H | s_start_res | s_res_H | s_res_HT | s_res_HTT | s_res_HTTP
  | s_res_http_major | s_res_http_dot | s_res_http_minor | s_res_http_end | s_res_first_status_code
  | s_res_status_code | s_res_status_start | s_res_status | s_res_line_almost_done
  | s_start_req | s_req_method | s_req_spaces_before_url | s_req_schema | s_req_schema_slash
  | s_req_schema_slash_slash | s_req_server_start | s_req_server | s_req_server_with_at | s_req_path
  | s_req_query_string_start | s_req_query_string | s_req_fragment_start | s_req_fragment
  | s_req_http_start | s_req_http_H | s_req_http_HT | s_req_http_HTT | s_req_http_HTTP | s_req_http_I
  | s_req_http_IC | s_req_http_major | s_req_http_dot | s_req_http_minor | s_req_http_end
  | s_req_line_almost_done
  | s_header_field_start | s_header_field | s_header_value_discard_ws
  | s_header_value_discard_ws_almost_done | s_header_value_discard_lws | s_header_value_start
  | s_header_value | s_header_value_lws | s_header_almost_done
  | s_chunk_size_start | s_chunk_size | s_chunk_parameters | s_chunk_size_almost_done
  | s_headers_almost_done | s_headers_done
  | s_chunk_data | s_chunk_data_almost_done | s_chunk_data_done
  | s_body_identity | s_body_identity_eof
  | s_message_done
  deriving DecidableEq, Repr

/-- `PARSING_HEADER(state)`: all states but those of the body. -/
def State.parsingHeader : State → Bool
  | s_chunk_data | s_chunk_data_almost_done | s_chunk_data_done | s_body_identity
  | s_body_identity_eof | s_message_done => false
  | _ => true

/-- The states in which `http_parser_execute` finds itself inside a URL. -/
def State.inUrl : State → Bool
  | s_req_path | s_req_schema | s_req_schema_slash | s_req_schema_slash_slash | s_req_server_start
  | s_req_server | s_req_server_with_at | s_req_query_string_start | s_req_query_string
  | s_req_fragment_start | s_req_fragment => true
  | _ => false

/-- `enum header_states`. -/
inductive HeaderState
  | h_general | h_C | h_CO | h_CON
  | h_matching_connection | h_matching_proxy_connection | h_matching_content_length
  | h_matching_transfer_encoding | h_matching_upgrade
  | h_connection | h_content_length | h_content_length_num | h_content_length_ws
  | h_transfer_encoding | h_upgrade
  | h_matching_transfer_encoding_chunked | h_matching_connection_token_start
  | h_matching_connection_keep_alive | h_matching_connection_close | h_matching_connection_upgrade
  | h_matching_connection_token
  | h_transfer_encoding_chunked | h_connection_keep_alive | h_connection_close | h_connection_upgrade
  deriving DecidableEq, Repr

/-- `enum http_errno`. -/
inductive HttpErrno
  | OK
  | CB_message_begin | CB_url | CB_header_field | CB_header_value | CB_headers_complete | CB_body
  | CB_message_complete | CB_status | CB_chunk_header | CB_chunk_complete
  | INVALID_EOF_STATE | HEADER_OVERFLOW | CLOSED_CONNECTION | INVALID_VERSION | INVALID_STATUS
  | INVALID_METHOD | INVALID_URL | INVALID_HOST | INVALID_PORT | INVALID_PATH | INVALID_QUERY_STRING
  | INVALID_FRAGMENT | LF_EXPECTED | INVALID_HEADER_TOKEN | INVALID_CONTENT_LENGTH
  | UNEXPECTED_CONTENT_LENGTH | INVALID_CHUNK_SIZE | INVALID_CONSTANT | INVALID_INTERNAL_STATE
  | STRICT | PAUSED | UNKNOWN
  deriving DecidableEq, Repr

/-- `enum http_parser_type`. -/
inductive HttpParserType
  | HTTP_REQUEST | HTTP_RESPONSE | HTTP_BOTH
  deriving DecidableEq, Repr

/-- The bits of `flags`. -/
structure Flags where
  chunked : Bool
  connectionKeepAlive : Bool
  connectionClose : Bool
  connectionUpgrade : Bool
  trailing : Bool
  upgrade : Bool
  skipbody : Bool
  contentlength : Bool
  deriving DecidableEq, Repr

/-- `flags = 0`. -/
def Flags.none : Flags := ⟨false, false, false, false, false, false, false, false⟩

/-- `HTTP_MAX_HEADER_SIZE`. -/
def maxHeaderSize : Nat := 80 * 1024

/-- `ULLONG_MAX`. -/
def ULLONG_MAX : Nat := 2 ^ 64 - 1

/-- `struct http_parser`. -/
structure HttpParser where
  type : HttpParserType
  flags : Flags
  state : State
  header_state : HeaderState
  index : Nat
  nread : Nat
  content_length : Nat
  http_major : Nat
  http_minor : Nat
  status_code : Nat
  method : HttpMethod
  http_errno : HttpErrno
  upgrade : Bool
  deriving DecidableEq, Repr

/-- `http_parser_init(parser, t)`. -/
def http_parser_init (t : HttpParserType) : HttpParser where
  type := t
  flags := .none
  state := match t with
    | .HTTP_REQUEST => .s_start_req
    | .HTTP_RESPONSE => .s_start_res
    | .HTTP_BOTH => .s_start_req_or_res
  header_state := .h_general
  index := 0
  nread := 0
  content_length := 0
  http_major := 0
  http_minor := 0
  status_code := 0
  method := .DELETE
  http_errno := .OK
  upgrade := false

/-- `http_message_needs_eof(parser)`. -/
def http_message_needs_eof (p : HttpParser) : Bool :=
  if p.type = .HTTP_REQUEST then false
  else if p.status_code / 100 = 1 ∨ p.status_code = 204 ∨ p.status_code = 304 ∨ p.flags.skipbody then false
  else if p.flags.chunked ∨ p.content_length ≠ ULLONG_MAX then false
  else true

/-- `http_should_keep_alive(parser)`. -/
def http_should_keep_alive (p : HttpParser) : Bool :=
  if 0 < p.http_major ∧ 0 < p.http_minor then
    if p.flags.connectionClose then false else !http_message_needs_eof p
  else if !p.flags.connectionKeepAlive then false
  else !http_message_needs_eof p

/-- `start_state`. -/
def startState (p : HttpParser) : State := if p.type = .HTTP_REQUEST then .s_start_req else .s_start_res

/-- `NEW_MESSAGE()` in strict mode. -/
def newMessage (p : HttpParser) : State := if http_should_keep_alive p then startState p else .s_dead

/-- `method_strings`. -/
def methodString : HttpMethod → Bytes
  | .DELETE => str "DELETE"
  | .GET => str "GET"
  | .HEAD => str "HEAD"
  | .POST => str "POST"
  | .PUT => str "PUT"
  | .CONNECT => str "CONNECT"
  | .OPTIONS => str "OPTIONS"
  | .TRACE => str "TRACE"
  | .COPY => str "COPY"
  | .LOCK => str "LOCK"
  | .MKCOL => str "MKCOL"
  | .MOVE => str "MOVE"
  | .PROPFIND => str "PROPFIND"
  | .PROPPATCH => str "PROPPATCH"
  | .SEARCH => str "SEARCH"
  | .UNLOCK => str "UNLOCK"
  | .BIND => str "BIND"
  | .REBIND => str "REBIND"
  | .UNBIND => str "UNBIND"
  | .ACL => str "ACL"
  | .REPORT => str "REPORT"
  | .MKACTIVITY => str "MKACTIVITY"
  | .CHECKOUT => str "CHECKOUT"
  | .MERGE => str "MERGE"
  | .MSEARCH => str "M-SEARCH"
  | .NOTIFY => str "NOTIFY"
  | .SUBSCRIBE => str "SUBSCRIBE"
  | .UNSUBSCRIBE => str "UNSUBSCRIBE"
  | .PATCH => str "PATCH"
  | .PURGE => str "PURGE"
  | .MKCALENDAR => str "MKCALENDAR"
  | .LINK => str "LINK"
  | .UNLINK => str "UNLINK"
  | .SOURCE => str "SOURCE"
  | .INVALID_METHOD => []

/-- The method a first character stands for, until a later one tells otherwise. -/
def firstMethod (ch : UInt8) : Option HttpMethod :=
  if ch = chr 'A' then some .ACL
  else if ch = chr 'B' then some .BIND
  else if ch = chr 'C' then some .CONNECT
  else if ch = chr 'D' then some .DELETE
  else if ch = chr 'G' then some .GET
  else if ch = chr 'H' then some .HEAD
  else if ch = chr 'L' then some .LOCK
  else if ch = chr 'M' then some .MKCOL
  else if ch = chr 'N' then some .NOTIFY
  else if ch = chr 'O' then some .OPTIONS
  else if ch = chr 'P' then some .POST
  else if ch = chr 'R' then some .REPORT
  else if ch = chr 'S' then some .SUBSCRIBE
  else if ch = chr 'T' then some .TRACE
  else if ch = chr 'U' then some .UNLOCK
  else none

/-- The `switch` on method, index and character in `s_req_method`. -/
def methodSwitches : List (HttpMethod × Nat × UInt8 × HttpMethod) :=
  [(.POST, 1, chr 'U', .PUT), (.POST, 1, chr 'A', .PATCH), (.POST, 1, chr 'R', .PROPFIND),
   (.PUT, 2, chr 'R', .PURGE), (.CONNECT, 1, chr 'H', .CHECKOUT), (.CONNECT, 2, chr 'P', .COPY),
   (.MKCOL, 1, chr 'O', .MOVE), (.MKCOL, 1, chr 'E', .MERGE), (.MKCOL, 1, chr '-', .MSEARCH),
   (.MKCOL, 2, chr 'A', .MKACTIVITY), (.MKCOL, 3, chr 'A', .MKCALENDAR),
   (.SUBSCRIBE, 1, chr 'E', .SEARCH), (.SUBSCRIBE, 1, chr 'O', .SOURCE),
   (.REPORT, 2, chr 'B', .REBIND), (.PROPFIND, 4, chr 'P', .PROPPATCH), (.LOCK, 1, chr 'I', .LINK),
   (.UNLOCK, 2, chr 'S', .UNSUBSCRIBE), (.UNLOCK, 2, chr 'B', .UNBIND), (.UNLOCK, 3, chr 'I', .UNLINK)]

/-- The method after such a character. -/
def switchMethod (m : HttpMethod) (index : Nat) (ch : UInt8) : Option HttpMethod :=
  (methodSwitches.find? fun e => e.1 = m ∧ e.2.1 = index ∧ e.2.2.1 = ch).map (·.2.2.2)

end HttpParsing
end Wuchat
