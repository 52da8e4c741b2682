/-
# The request and the response parser

`http/http_parser.cpp`: the callbacks handed to `http_parser_execute`, and
`HttpRequestParser` and `HttpResponseParser` around it.

The callbacks of the two differ in the record they fill, in what a URL and a reason
phrase are for, and in the fields set when the headers are complete.  A data callback gets
the part of its element that lies in the current buffer: a header name replaces the name
before it, a header value is stored under the current name, and a body is appended.
-/

import Wuchat.HttpParser.Execute

namespace Wuchat
namespace Http

open Foundation HttpParsing

/-- What the callbacks work on: the fields of the parser object other than `m_parser` and
`m_error`. -/
structure Target (M : Type) where
  data : M
  finished : Bool
  filed : Bytes
  deriving DecidableEq, Repr

/-- `on_request_url_cb`. -/
def on_request_url_cb (buf : Bytes) (t : Target HttpRequest) : Target HttpRequest × Int :=
  match http_parser_parse_url buf false with
  | none => (t, 1)
  | some u =>
    let path := (u.text buf .UF_PATH).getD t.data.path
    let query := (u.text buf .UF_QUERY).getD t.data.query
    let fragment := (u.text buf .UF_FRAGMENT).getD t.data.fragment
    ({ t with data := { t.data with path := path, query := query, fragment := fragment } }, 0)

/-- `on_request_headers_complete_cb`. -/
def on_request_headers_complete_cb (p : HttpParser) (t : Target HttpRequest) : Target HttpRequest × Int :=
  ({ t with data := { t.data with version := p.http_major * 16 + p.http_minor, method := p.method } }, 0)

/-- `on_response_headers_complete_cb`. -/
def on_response_headers_complete_cb (p : HttpParser) (t : Target HttpResponse) : Target HttpResponse × Int :=
  ({ t with data := { t.data with version := p.http_major * 16 + p.http_minor, status := p.status_code } }, 0)

/-- `on_request_message_complete_cb`, `on_response_message_complete_cb`, and the
notifications that do nothing. -/
def on_notify_cb {M : Type} (n : Notice) (t : Target M) : Target M × Int :=
  match n with
  | .message_complete => ({ t with finished := true }, 0)
  | _ => (t, 0)

/-- The data callbacks of a request. -/
def on_request_data_cb (m : Mark) (buf : Bytes) (t : Target HttpRequest) : Target HttpRequest × Int :=
  match m with
  | .url => on_request_url_cb buf t
  | .header_field => ({ t with filed := buf }, 0)
  | .header_value => ({ t with data := t.data.setHeader t.filed buf }, 0)
  | .status => (t, 0)
  | .body => ({ t with data := t.data.appendBody buf }, 0)

/-- The data callbacks of a response. -/
def on_response_data_cb (m : Mark) (p : HttpParser) (buf : Bytes) (t : Target HttpResponse) :
    Target HttpResponse × Int :=
  match m with
  | .url => (t, 0)
  | .header_field => ({ t with filed := buf }, 0)
  | .header_value => ({ t with data := t.data.setHeader t.filed buf }, 0)
  | .status => ({ t with data := { t.data with status := p.status_code } }, 0)
  | .body => ({ t with data := t.data.appendBody buf }, 0)

/-- `httpParserSettings1`. -/
def httpParserSettings1 : Settings (Target HttpRequest) where
  notify n _ := on_notify_cb n
  headersComplete := on_request_headers_complete_cb
  data m _ := on_request_data_cb m

/-- `httpParserSettings2`. -/
def httpParserSettings2 : Settings (Target HttpResponse) where
  notify n _ := on_notify_cb n
  headersComplete := on_response_headers_complete_cb
  data := on_response_data_cb

/-- A parser object: `m_parser`, `m_error`, and what the callbacks work on. -/
structure MessageParser (M : Type) where
  parser : HttpParser
  error : HttpErrno
  target : Target M
  deriving DecidableEq, Repr

/-- `HttpRequestParser`. -/
abbrev HttpRequestParser := MessageParser HttpRequest

/-- `HttpResponseParser`. -/
abbrev HttpResponseParser := MessageParser HttpResponse

/-- `HttpRequestParser()`. -/
def HttpRequestParser.new : HttpRequestParser :=
  ⟨http_parser_init .HTTP_REQUEST, .OK, ⟨.new, false, []⟩⟩

/-- `HttpResponseParser()`. -/
def HttpResponseParser.new : HttpResponseParser :=
  ⟨http_parser_init .HTTP_RESPONSE, .OK, ⟨.new, false, []⟩⟩

/-- `HttpRequestParser::execute(data, len)`: the parser, the bytes parsed, and the data
after the `memmove`. -/
def HttpRequestParser.execute (r : HttpRequestParser) (data : Bytes) : HttpRequestParser × Nat × Bytes :=
  let e := http_parser_execute httpParserSettings1 r.parser data r.target
  if e.parser.upgrade then (⟨e.parser, .UNKNOWN, e.app⟩, e.parsed, data)
  else if e.parser.http_errno ≠ .OK then (⟨e.parser, e.parser.http_errno, e.app⟩, e.parsed, data)
  else
    (⟨e.parser, r.error, e.app⟩, e.parsed,
      data.drop e.parsed ++ data.drop (data.length - e.parsed))

/-- `HttpResponseParser::execute(data, len)`. -/
def HttpResponseParser.execute (r : HttpResponseParser) (data : Bytes) : HttpResponseParser × Nat × Bytes :=
  let e := http_parser_execute httpParserSettings2 r.parser data r.target
  if e.parser.http_errno ≠ .OK then (⟨e.parser, e.parser.http_errno, e.app⟩, e.parsed, data)
  else
    (⟨e.parser, r.error, e.app⟩, e.parsed,
      data.drop e.parsed ++ data.drop (data.length - e.parsed))

end Http
end Wuchat
