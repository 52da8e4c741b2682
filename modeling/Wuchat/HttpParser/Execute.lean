/-
# The vendored HTTP parser: `http_parser_execute`

The loop of `http_parser_execute` looks at one byte after the other.  What it does with a
byte depends on the fields of the parser only, so it is written as a program (`Prog`)
that updates them, sets marks and makes calls of the callbacks; `Prog.run` does these with
the marks and whatever the callbacks work on.  A mark is the bytes from it up to the
current one.

`REEXECUTE` is a call of the function of the new state.  The states `s_header_field` and
`s_header_value` have loops of their own over the bytes; `Loop` says how many bytes
the current one has taken, since they are counted against `max_header_size` at its end
only.  While a value matches nothing special the inner loop runs over at most
`max_header_size` bytes, and the byte after that many is taken without a look at it.

The local variables `p_state`, `nread` and `h_state` are the fields of the parser they are
written back to.  Callbacks do not pause the parser.  Assertions are left out.
-/

import Wuchat.HttpParser.Url

namespace Wuchat
namespace HttpParsing

open Foundation Http

/-- The marks. -/
inductive Mark
  | header_field | header_value | url | body | status
  deriving DecidableEq, Repr

/-- The callbacks that are only told of something. -/
inductive Notice
  | message_begin | message_complete | chunk_header | chunk_complete
  deriving DecidableEq, Repr

/-- The inner loop the parser is in, with the bytes it has taken: in a header name; in a
header value, with the bytes since the value matches nothing special. -/
inductive Loop
  | outer
  | field (k : Nat)
  | value (k general : Nat)
  deriving DecidableEq, Repr

/-- What is done with a byte.  `adv` is what a return adds to the bytes before this one. -/
inductive Prog
  | next (p : HttpParser) (loop : Loop)
  | exit (p : HttpParser) (adv : Nat)
  | mark (m : Mark) (k : Prog)
  | data (m : Mark) (withByte : Bool) (adv : Nat) (p : HttpParser) (k : Prog)
  | notify (n : Notice) (adv : Nat) (p : HttpParser) (k : Prog)
  | headersComplete (p : HttpParser) (k : Int → Prog)

/-- `SET_ERRNO(e); goto error`. -/
def fail (e : HttpErrno) (p : HttpParser) : Prog := .exit { p with http_errno := e } 0

/-- The end of a turn of the loop, in the state `s`. -/
def goto (s : State) (p : HttpParser) : Prog := .next { p with state := s } .outer

/-- `STRICT_CHECK(cond)`. -/
def strictCheck (cond : Prop) [Decidable cond] (p : HttpParser) (k : Prog) : Prog :=
  if cond then fail .STRICT p else k

/-- `nread += (uint32_t)(v)`. -/
def addRead (v : Nat) (p : HttpParser) : HttpParser :=
  { p with nread := (p.nread + v % 2 ^ 32) % 2 ^ 32 }

/-- `COUNT_HEADER_SIZE(v)`. -/
def countHeaderSize (v : Nat) (p : HttpParser) (k : HttpParser → Prog) : Prog :=
  if maxHeaderSize < (addRead v p).nread then fail .HEADER_OVERFLOW (addRead v p) else k (addRead v p)

/-! ### The end of a message -/

/-- The next message in the same buffer: `UPDATE_STATE(NEW_MESSAGE())` and
`CALLBACK_NOTIFY(message_complete)`. -/
def messageComplete (p : HttpParser) (k : HttpParser → Prog) : Prog :=
  let p := { p with state := newMessage p }
  .notify .message_complete 1 p (k p)

/-- `case s_message_done`. -/
def messageDone (p : HttpParser) : Prog :=
  messageComplete p fun p => if p.upgrade then .exit p 1 else .next p .outer

/-- `case s_headers_done`. -/
def headersDone (ch : UInt8) (p : HttpParser) : Prog :=
  strictCheck (ch ≠ LF) p <|
    let p := { p with nread := 0 }
    let hasBody := p.flags.chunked ∨ (0 < p.content_length ∧ p.content_length ≠ ULLONG_MAX)
    if p.upgrade ∧ (p.method = .CONNECT ∨ p.flags.skipbody ∨ ¬hasBody) then
      messageComplete p fun p => .exit p 1
    else if p.flags.skipbody then messageComplete p fun p => .next p .outer
    else if p.flags.chunked then goto .s_chunk_size_start p
    else if p.content_length = 0 then messageComplete p fun p => .next p .outer
    else if p.content_length ≠ ULLONG_MAX then goto .s_body_identity p
    else if !http_message_needs_eof p then messageComplete p fun p => .next p .outer
    else goto .s_body_identity_eof p

/-- The `switch` on the result of `on_headers_complete`. -/
def headersCompleted (ch : UInt8) (p : HttpParser) (r : Int) : Prog :=
  if r = 0 then headersDone ch p
  else if r = 1 then headersDone ch { p with flags := { p.flags with skipbody := true } }
  else if r = 2 then
    headersDone ch { p with upgrade := true, flags := { p.flags with skipbody := true } }
  else fail .CB_headers_complete p

/-- Whether another protocol is asked for by the headers. -/
def wantsUpgrade (p : HttpParser) : Bool :=
  if p.flags.upgrade ∧ p.flags.connectionUpgrade then
    p.type = .HTTP_REQUEST ∨ p.status_code = 101
  else p.method = .CONNECT

/-- `case s_headers_almost_done`. -/
def headersAlmostDone (ch : UInt8) (p : HttpParser) : Prog :=
  strictCheck (ch ≠ LF) p <|
    if p.flags.trailing then
      let p := { p with state := .s_message_done }
      .notify .chunk_complete 0 p (messageDone p)
    else if p.flags.chunked ∧ p.flags.contentlength then fail .UNEXPECTED_CONTENT_LENGTH p
    else
      let p := { p with state := .s_headers_done, upgrade := wantsUpgrade p }
      .headersComplete p (headersCompleted ch p)

/-! ### Header lines -/

/-- The header names that are looked for, from the first character. -/
def firstHeaderState (c : UInt8) : HeaderState :=
  if c = chr 'c' then .h_C
  else if c = chr 'p' then .h_matching_proxy_connection
  else if c = chr 't' then .h_matching_transfer_encoding
  else if c = chr 'u' then .h_matching_upgrade
  else .h_general

/-- `case s_header_field_start`. -/
def headerFieldStart (ch : UInt8) (p : HttpParser) : Prog :=
  if ch = CR then goto .s_headers_almost_done p
  else if ch = LF then headersAlmostDone ch { p with state := .s_headers_almost_done }
  else match token ch with
  | none => fail .INVALID_HEADER_TOKEN p
  | some c => .mark .header_field <|
      goto .s_header_field { p with index := 0, header_state := firstHeaderState c }

/-- A character matched against the word `w` at the next index: what is matched so far,
nothing, or all of it. -/
def matchWord (w : Bytes) (c : UInt8) (going failed all : HeaderState) (p : HttpParser) : HttpParser :=
  let index := p.index + 1
  { p with
    index := index
    header_state :=
      if w.length < index ∨ w.getD index 0 ≠ c then failed
      else if index = w.length - 1 then all
      else going }

/-- What a character `c` of a header name does to the header state. -/
def fieldChar (ch c : UInt8) (p : HttpParser) : HttpParser :=
  match p.header_state with
  | .h_general => p
  | .h_C => { p with index := p.index + 1, header_state := if c = chr 'o' then .h_CO else .h_general }
  | .h_CO => { p with index := p.index + 1, header_state := if c = chr 'n' then .h_CON else .h_general }
  | .h_CON => { p with
      index := p.index + 1
      header_state :=
        if c = chr 'n' then .h_matching_connection
        else if c = chr 't' then .h_matching_content_length
        else .h_general }
  | .h_matching_connection =>
    matchWord (str "connection") c .h_matching_connection .h_general .h_connection p
  | .h_matching_proxy_connection =>
    matchWord (str "proxy-connection") c .h_matching_proxy_connection .h_general .h_connection p
  | .h_matching_content_length =>
    matchWord (str "content-length") c .h_matching_content_length .h_general .h_content_length p
  | .h_matching_transfer_encoding =>
    matchWord (str "transfer-encoding") c .h_matching_transfer_encoding .h_general .h_transfer_encoding p
  | .h_matching_upgrade => matchWord (str "upgrade") c .h_matching_upgrade .h_general .h_upgrade p
  | .h_connection | .h_content_length | .h_transfer_encoding | .h_upgrade =>
    if ch ≠ chr ' ' then { p with header_state := .h_general } else p
  | _ => p

/-- `case s_header_field`: a byte of its loop, after `k` bytes. -/
def headerField (k : Nat) (ch : UInt8) (p : HttpParser) : Prog :=
  match token ch with
  | some c => .next (fieldChar ch c p) (.field (k + 1))
  | none =>
    countHeaderSize k p fun p =>
      if ch = chr ':' then
        let p := { p with state := .s_header_value_discard_ws }
        .data .header_field false 1 p (.next p .outer)
      else fail .INVALID_HEADER_TOKEN p

/-- `case s_header_value_start`. -/
def headerValueStart (ch : UInt8) (p : HttpParser) : Prog :=
  let c := lower ch
  let p := { p with state := .s_header_value, index := 0 }
  .mark .header_value <| match p.header_state with
  | .h_upgrade =>
    .next { p with flags := { p.flags with upgrade := true }, header_state := .h_general } .outer
  | .h_transfer_encoding => .next { p with
      header_state := if c = chr 'c' then .h_matching_transfer_encoding_chunked else .h_general } .outer
  | .h_content_length =>
    if !isNum ch then fail .INVALID_CONTENT_LENGTH p
    else if p.flags.contentlength then fail .UNEXPECTED_CONTENT_LENGTH p
    else .next { p with
      flags := { p.flags with contentlength := true }
      content_length := ch.toNat - 48
      header_state := .h_content_length_num } .outer
  | .h_content_length_ws => .next p .outer
  | .h_connection => .next { p with
      header_state :=
        if c = chr 'k' then .h_matching_connection_keep_alive
        else if c = chr 'c' then .h_matching_connection_close
        else if c = chr 'u' then .h_matching_connection_upgrade
        else .h_matching_connection_token } .outer
  | .h_matching_connection_token_start => .next p .outer
  | _ => .next { p with header_state := .h_general } .outer

/-- `case s_header_value_discard_ws`. -/
def headerValueDiscardWs (ch : UInt8) (p : HttpParser) : Prog :=
  if ch = chr ' ' ∨ ch = 9 then .next p .outer
  else if ch = CR then goto .s_header_value_discard_ws_almost_done p
  else if ch = LF then goto .s_header_value_discard_lws p
  else headerValueStart ch p

/-- The flag that the value of a header stands for at its end. -/
def flagOf (h : HeaderState) (flags : Flags) : Flags :=
  match h with
  | .h_connection_keep_alive => { flags with connectionKeepAlive := true }
  | .h_connection_close => { flags with connectionClose := true }
  | .h_connection_upgrade => { flags with connectionUpgrade := true }
  | .h_transfer_encoding_chunked => { flags with chunked := true }
  | _ => flags

/-- `case h_content_length_num` in the loop of `s_header_value`. -/
def contentLengthNum (ch : UInt8) (p : HttpParser) : Except HttpErrno HttpParser :=
  if ch = chr ' ' then .ok { p with header_state := .h_content_length_ws }
  else if !isNum ch then .error .INVALID_CONTENT_LENGTH
  else if (ULLONG_MAX - 10) / 10 < p.content_length then .error .INVALID_CONTENT_LENGTH
  else .ok { p with content_length := p.content_length * 10 + (ch.toNat - 48) }

/-- What a character of a header value does to the header state. -/
def valueChar (ch : UInt8) (p : HttpParser) : Except HttpErrno HttpParser :=
  let c := lower ch
  match p.header_state with
  | .h_general => .ok p
  | .h_connection | .h_transfer_encoding => .ok p
  | .h_content_length =>
    if ch = chr ' ' then .ok p
    else contentLengthNum ch { p with header_state := .h_content_length_num }
  | .h_content_length_num => contentLengthNum ch p
  | .h_content_length_ws => if ch = chr ' ' then .ok p else .error .INVALID_CONTENT_LENGTH
  | .h_matching_transfer_encoding_chunked => .ok <|
    matchWord (str "chunked") c .h_matching_transfer_encoding_chunked .h_general
      .h_transfer_encoding_chunked p
  | .h_matching_connection_token_start => .ok { p with
      header_state :=
        if c = chr 'k' then .h_matching_connection_keep_alive
        else if c = chr 'c' then .h_matching_connection_close
        else if c = chr 'u' then .h_matching_connection_upgrade
        else if (token c).isSome then .h_matching_connection_token
        else if c = chr ' ' ∨ c = 9 then .h_matching_connection_token_start
        else .h_general }
  | .h_matching_connection_keep_alive => .ok <|
    matchWord (str "keep-alive") c .h_matching_connection_keep_alive .h_matching_connection_token
      .h_connection_keep_alive p
  | .h_matching_connection_close => .ok <|
    matchWord (str "close") c .h_matching_connection_close .h_matching_connection_token
      .h_connection_close p
  | .h_matching_connection_upgrade => .ok <|
    matchWord (str "upgrade") c .h_matching_connection_upgrade .h_matching_connection_token
      .h_connection_upgrade p
  | .h_matching_connection_token =>
    if ch = chr ',' then .ok { p with header_state := .h_matching_connection_token_start, index := 0 }
    else .ok p
  | .h_transfer_encoding_chunked =>
    if ch ≠ chr ' ' then .ok { p with header_state := .h_general } else .ok p
  | .h_connection_keep_alive | .h_connection_close | .h_connection_upgrade =>
    if ch = chr ',' then .ok { p with
      flags := flagOf p.header_state p.flags
      header_state := .h_matching_connection_token_start
      index := 0 }
    else if ch ≠ chr ' ' then .ok { p with header_state := .h_matching_connection_token }
    else .ok p
  | _ => .ok { p with header_state := .h_general }

/-- `case s_header_almost_done`. -/
def headerAlmostDone (ch : UInt8) (p : HttpParser) : Prog :=
  if ch ≠ LF then fail .LF_EXPECTED p else goto .s_header_value_lws p

/-- `case s_header_value`: a byte of its loop, after `k` bytes. -/
def headerValue (k general : Nat) (ch : UInt8) (p : HttpParser) : Prog :=
  if p.header_state = .h_general ∧ general = maxHeaderSize then .next p (.value (k + 1) 0)
  else if ch = CR then
    let p := { p with state := .s_header_almost_done }
    .data .header_value false 1 p (countHeaderSize k p fun p => .next p .outer)
  else if ch = LF then
    countHeaderSize k { p with state := .s_header_almost_done } fun p =>
      .data .header_value false 0 p (headerAlmostDone ch p)
  else if !isHeaderChar ch then fail .INVALID_HEADER_TOKEN p
  else match valueChar ch p with
  | .error e => fail e p
  | .ok p' => .next p' (.value (k + 1) (if p.header_state = .h_general then general + 1 else 0))

/-- `case s_header_value_lws`. -/
def headerValueLws (ch : UInt8) (p : HttpParser) : Prog :=
  if ch = chr ' ' ∨ ch = 9 then
    headerValueStart ch { p with
      header_state := if p.header_state = .h_content_length_num then .h_content_length_ws else p.header_state
      state := .s_header_value_start }
  else
    headerFieldStart ch { p with flags := flagOf p.header_state p.flags, state := .s_header_field_start }

/-- `case s_header_value_discard_lws`. -/
def headerValueDiscardLws (ch : UInt8) (p : HttpParser) : Prog :=
  if ch = chr ' ' ∨ ch = 9 then goto .s_header_value_discard_ws p
  else if p.header_state = .h_content_length then fail .INVALID_CONTENT_LENGTH p
  else
    let p := { p with flags := flagOf p.header_state p.flags, state := .s_header_field_start }
    .mark .header_value (.data .header_value false 0 p (headerFieldStart ch p))

/-! ### Request lines -/

/-- `case s_start_req`. -/
def startReq (ch : UInt8) (p : HttpParser) : Prog :=
  if ch = CR ∨ ch = LF then .next p .outer
  else
    let p := { p with flags := .none, content_length := ULLONG_MAX }
    if !isAlpha ch then fail .INVALID_METHOD p
    else match firstMethod ch with
    | none => fail .INVALID_METHOD { p with method := .DELETE, index := 1 }
    | some m =>
      let p := { p with method := m, index := 1, state := .s_req_method }
      .notify .message_begin 1 p (.next p .outer)

/-- `case s_req_method`. -/
def reqMethod (ch : UInt8) (p : HttpParser) : Prog :=
  if ch = 0 then fail .INVALID_METHOD p
  else
    let c := (methodString p.method).getD p.index 0
    let p' := { p with index := p.index + 1 }
    if ch = chr ' ' ∧ c = 0 then goto .s_req_spaces_before_url p'
    else if ch = c then .next p' .outer
    else if (chr 'A' ≤ ch ∧ ch ≤ chr 'Z') ∨ ch = chr '-' then
      match switchMethod p.method p.index ch with
      | none => fail .INVALID_METHOD p
      | some m => .next { p' with method := m } .outer
    else fail .INVALID_METHOD p

/-- A character of a URL, in the state `s`. -/
def urlChar (s : State) (ch : UInt8) (p : HttpParser) : Prog :=
  let p := { p with state := parse_url_char s ch }
  if p.state = .s_dead then fail .INVALID_URL p else .next p .outer

/-- `case s_req_spaces_before_url`. -/
def reqSpacesBeforeUrl (ch : UInt8) (p : HttpParser) : Prog :=
  if ch = chr ' ' then .next p .outer
  else .mark .url <|
    urlChar (if p.method = .CONNECT then .s_req_server_start else .s_req_spaces_before_url) ch p

/-- The cases from `s_req_schema` to `s_req_server_start`. -/
def reqSchema (ch : UInt8) (p : HttpParser) : Prog :=
  if ch = chr ' ' ∨ ch = CR ∨ ch = LF then fail .INVALID_URL p else urlChar p.state ch p

/-- The cases from `s_req_server` to `s_req_fragment`. -/
def reqUrl (ch : UInt8) (p : HttpParser) : Prog :=
  if ch = chr ' ' then
    let p := { p with state := .s_req_http_start }
    .data .url false 1 p (.next p .outer)
  else if ch = CR ∨ ch = LF then
    let p := { p with
      http_major := 0
      http_minor := 9
      state := if ch = CR then .s_req_line_almost_done else .s_header_field_start }
    .data .url false 1 p (.next p .outer)
  else urlChar p.state ch p

/-- `case s_req_http_start`. -/
def reqHttpStart (ch : UInt8) (p : HttpParser) : Prog :=
  if ch = chr ' ' then .next p .outer
  else if ch = chr 'H' then goto .s_req_http_H p
  else if ch = chr 'I' ∧ p.method = .SOURCE then goto .s_req_http_I p
  else fail .INVALID_CONSTANT p

/-- A character that must be `c`. -/
def expect (c : Char) (s : State) (ch : UInt8) (p : HttpParser) : Prog :=
  strictCheck (ch ≠ chr c) p (goto s p)

/-- A digit of a version. -/
def versionDigit (ch : UInt8) (p : HttpParser) (k : Nat → HttpParser) : Prog :=
  if !isNum ch then fail .INVALID_VERSION p else .next (k (ch.toNat - 48)) .outer

/-- The character `c` of a version. -/
def versionChar (c : Char) (s : State) (ch : UInt8) (p : HttpParser) : Prog :=
  if ch ≠ chr c then fail .INVALID_VERSION p else goto s p

/-- `case s_req_http_end`. -/
def reqHttpEnd (ch : UInt8) (p : HttpParser) : Prog :=
  if ch = CR then goto .s_req_line_almost_done p
  else if ch = LF then goto .s_header_field_start p
  else fail .INVALID_VERSION p

/-- `case s_req_line_almost_done`. -/
def reqLineAlmostDone (ch : UInt8) (p : HttpParser) : Prog :=
  if ch ≠ LF then fail .LF_EXPECTED p else goto .s_header_field_start p

/-! ### Status lines -/

/-- `case s_start_req_or_res`. -/
def startReqOrRes (ch : UInt8) (p : HttpParser) : Prog :=
  if ch = CR ∨ ch = LF then .next p .outer
  else
    let p := { p with flags := .none, content_length := ULLONG_MAX }
    if ch = chr 'H' then
      let p := { p with state := .s_res_or_resp_H }
      .notify .message_begin 1 p (.next p .outer)
    else startReq ch { p with type := .HTTP_REQUEST, state := .s_start_req }

/-- `case s_res_or_resp_H`. -/
def resOrRespH (ch : UInt8) (p : HttpParser) : Prog :=
  if ch = chr 'T' then goto .s_res_HT { p with type := .HTTP_RESPONSE }
  else if ch ≠ chr 'E' then fail .INVALID_CONSTANT p
  else goto .s_req_method { p with type := .HTTP_REQUEST, method := .HEAD, index := 2 }

/-- `case s_start_res`. -/
def startRes (ch : UInt8) (p : HttpParser) : Prog :=
  if ch = CR ∨ ch = LF then .next p .outer
  else
    let p := { p with flags := .none, content_length := ULLONG_MAX }
    if ch = chr 'H' then
      let p := { p with state := .s_res_H }
      .notify .message_begin 1 p (.next p .outer)
    else fail .INVALID_CONSTANT p

/-- `case s_res_first_status_code`. -/
def resFirstStatusCode (ch : UInt8) (p : HttpParser) : Prog :=
  if isNum ch then goto .s_res_status_code { p with status_code := ch.toNat - 48 }
  else if ch = chr ' ' then .next p .outer
  else fail .INVALID_STATUS p

/-- `case s_res_status`. -/
def resStatus (ch : UInt8) (p : HttpParser) : Prog :=
  if ch = CR then
    let p := { p with state := .s_res_line_almost_done }
    .data .status false 1 p (.next p .outer)
  else if ch = LF then
    let p := { p with state := .s_header_field_start }
    .data .status false 1 p (.next p .outer)
  else .next p .outer

/-- `case s_res_status_start`. -/
def resStatusStart (ch : UInt8) (p : HttpParser) : Prog :=
  let p := { p with state := .s_res_status, index := 0 }
  .mark .status (if ch = CR ∨ ch = LF then resStatus ch p else .next p .outer)

/-- `case s_res_status_code`. -/
def resStatusCode (ch : UInt8) (p : HttpParser) : Prog :=
  if isNum ch then
    let p := { p with status_code := (p.status_code * 10 + (ch.toNat - 48)) % 2 ^ 16 }
    if 999 < p.status_code then fail .INVALID_STATUS p else .next p .outer
  else if ch = chr ' ' then goto .s_res_status_start p
  else if ch = CR ∨ ch = LF then resStatusStart ch { p with state := .s_res_status_start }
  else fail .INVALID_STATUS p

/-! ### Bodies -/

/-- `case s_body_identity`, one byte of it. -/
def bodyIdentity (p : HttpParser) : Prog :=
  let p := { p with content_length := p.content_length - 1 }
  .mark .body <|
    if p.content_length = 0 then
      let p := { p with state := .s_message_done }
      .data .body true 0 p (messageDone p)
    else .next p .outer

/-- `case s_chunk_size_start`. -/
def chunkSizeStart (ch : UInt8) (p : HttpParser) : Prog :=
  match unhex ch with
  | none => fail .INVALID_CHUNK_SIZE p
  | some v => goto .s_chunk_size { p with content_length := v }

/-- `case s_chunk_size`. -/
def chunkSize (ch : UInt8) (p : HttpParser) : Prog :=
  if ch = CR then goto .s_chunk_size_almost_done p
  else match unhex ch with
  | none =>
    if ch = chr ';' ∨ ch = chr ' ' then goto .s_chunk_parameters p else fail .INVALID_CHUNK_SIZE p
  | some v =>
    if (ULLONG_MAX - 16) / 16 < p.content_length then fail .INVALID_CONTENT_LENGTH p
    else .next { p with content_length := p.content_length * 16 + v } .outer

/-- `case s_chunk_parameters`. -/
def chunkParameters (ch : UInt8) (p : HttpParser) : Prog :=
  if ch = CR then goto .s_chunk_size_almost_done p else .next p .outer

/-- `case s_chunk_size_almost_done`. -/
def chunkSizeAlmostDone (ch : UInt8) (p : HttpParser) : Prog :=
  strictCheck (ch ≠ LF) p <|
    let p := { p with nread := 0 }
    let p := if p.content_length = 0 then
        { p with flags := { p.flags with trailing := true }, state := .s_header_field_start }
      else { p with state := .s_chunk_data }
    .notify .chunk_header 1 p (.next p .outer)

/-- `case s_chunk_data`, one byte of it. -/
def chunkData (p : HttpParser) : Prog :=
  let p := { p with content_length := p.content_length - 1 }
  .mark .body (if p.content_length = 0 then goto .s_chunk_data_almost_done p else .next p .outer)

/-- `case s_chunk_data_almost_done`. -/
def chunkDataAlmostDone (ch : UInt8) (p : HttpParser) : Prog :=
  strictCheck (ch ≠ CR) p <|
    let p := { p with state := .s_chunk_data_done }
    .data .body false 1 p (.next p .outer)

/-- `case s_chunk_data_done`. -/
def chunkDataDone (ch : UInt8) (p : HttpParser) : Prog :=
  strictCheck (ch ≠ LF) p <|
    let p := { p with nread := 0, state := .s_chunk_size_start }
    .notify .chunk_complete 1 p (.next p .outer)

/-! ### The loop -/

/-- The `switch` on the state. -/
def reexecute (ch : UInt8) (p : HttpParser) : Prog :=
  match p.state with
  | .s_dead => if ch = CR ∨ ch = LF then .next p .outer else fail .CLOSED_CONNECTION p
  | .s_start_req_or_res => startReqOrRes ch p
  | .s_res_or_resp_H => resOrRespH ch p
  | .s_start_res => startRes ch p
  | .s_res_H => expect 'T' .s_res_HT ch p
  | .s_res_HT => expect 'T' .s_res_HTT ch p
  | .s_res_HTT => expect 'P' .s_res_HTTP ch p
  | .s_res_HTTP => expect '/' .s_res_http_major ch p
  | .s_res_http_major => versionDigit ch p fun d => { p with http_major := d, state := .s_res_http_dot }
  | .s_res_http_dot => versionChar '.' .s_res_http_minor ch p
  | .s_res_http_minor => versionDigit ch p fun d => { p with http_minor := d, state := .s_res_http_end }
  | .s_res_http_end => versionChar ' ' .s_res_first_status_code ch p
  | .s_res_first_status_code => resFirstStatusCode ch p
  | .s_res_status_code => resStatusCode ch p
  | .s_res_status_start => resStatusStart ch p
  | .s_res_status => resStatus ch p
  | .s_res_line_almost_done => strictCheck (ch ≠ LF) p (goto .s_header_field_start p)
  | .s_start_req => startReq ch p
  | .s_req_method => reqMethod ch p
  | .s_req_spaces_before_url => reqSpacesBeforeUrl ch p
  | .s_req_schema | .s_req_schema_slash | .s_req_schema_slash_slash | .s_req_server_start => reqSchema ch p
  | .s_req_server | .s_req_server_with_at | .s_req_path | .s_req_query_string_start
  | .s_req_query_string | .s_req_fragment_start | .s_req_fragment => reqUrl ch p
  | .s_req_http_start => reqHttpStart ch p
  | .s_req_http_H => expect 'T' .s_req_http_HT ch p
  | .s_req_http_HT => expect 'T' .s_req_http_HTT ch p
  | .s_req_http_HTT => expect 'P' .s_req_http_HTTP ch p
  | .s_req_http_I => expect 'C' .s_req_http_IC ch p
  | .s_req_http_IC => expect 'E' .s_req_http_HTTP ch p
  | .s_req_http_HTTP => expect '/' .s_req_http_major ch p
  | .s_req_http_major => versionDigit ch p fun d => { p with http_major := d, state := .s_req_http_dot }
  | .s_req_http_dot => versionChar '.' .s_req_http_minor ch p
  | .s_req_http_minor => versionDigit ch p fun d => { p with http_minor := d, state := .s_req_http_end }
  | .s_req_http_end => reqHttpEnd ch p
  | .s_req_line_almost_done => reqLineAlmostDone ch p
  | .s_header_field_start => headerFieldStart ch p
  | .s_header_field => headerField 0 ch p
  | .s_header_value_discard_ws => headerValueDiscardWs ch p
  | .s_header_value_discard_ws_almost_done =>
    strictCheck (ch ≠ LF) p (goto .s_header_value_discard_lws p)
  | .s_header_value_discard_lws => headerValueDiscardLws ch p
  | .s_header_value_start => headerValueStart ch p
  | .s_header_value => headerValue 0 0 ch p
  | .s_header_value_lws => headerValueLws ch p
  | .s_header_almost_done => headerAlmostDone ch p
  | .s_chunk_size_start => chunkSizeStart ch p
  | .s_chunk_size => chunkSize ch p
  | .s_chunk_parameters => chunkParameters ch p
  | .s_chunk_size_almost_done => chunkSizeAlmostDone ch p
  | .s_headers_almost_done => headersAlmostDone ch p
  | .s_headers_done => headersDone ch p
  | .s_chunk_data => chunkData p
  | .s_chunk_data_almost_done => chunkDataAlmostDone ch p
  | .s_chunk_data_done => chunkDataDone ch p
  | .s_body_identity => bodyIdentity p
  | .s_body_identity_eof => .mark .body (.next p .outer)
  | .s_message_done => messageDone p

/-- What is done with a byte, in the loop that is running. -/
def byteProg (loop : Loop) (ch : UInt8) (p : HttpParser) : Prog :=
  match loop with
  | .field k => headerField k ch p
  | .value k general => headerValue k general ch p
  | .outer => if p.state.parsingHeader then countHeaderSize 1 p (reexecute ch) else reexecute ch p

/-! ### Callbacks -/

/-- `struct http_parser_settings`, for callbacks that work on an `A` and return an `int`. -/
structure Settings (A : Type) where
  notify : Notice → HttpParser → A → A × Int
  headersComplete : HttpParser → A → A × Int
  data : Mark → HttpParser → Bytes → A → A × Int

/-- The code of an error in a data callback. -/
def Mark.errno : Mark → HttpErrno
  | header_field => .CB_header_field
  | header_value => .CB_header_value
  | url => .CB_url
  | body => .CB_body
  | status => .CB_status

/-- The code of an error in a notification. -/
def Notice.errno : Notice → HttpErrno
  | message_begin => .CB_message_begin
  | message_complete => .CB_message_complete
  | chunk_header => .CB_chunk_header
  | chunk_complete => .CB_chunk_complete

/-- The marks and what the callbacks work on. -/
structure Locals (A : Type) where
  marks : Mark → Option Bytes
  app : A

variable {A : Type}

/-- A mark set to the given bytes. -/
def Locals.setMark (l : Locals A) (m : Mark) (v : Option Bytes) : Locals A :=
  { l with marks := fun m' => if m' = m then v else l.marks m' }

/-- `MARK(m)`. -/
def Locals.mark (l : Locals A) (m : Mark) : Locals A := l.setMark m (some ((l.marks m).getD []))

/-- The current byte added to the marks. -/
def Locals.push (l : Locals A) (ch : UInt8) : Locals A :=
  { l with marks := fun m => (l.marks m).map (· ++ [ch]) }

/-- How the work on a byte ends: with the next one, or with a return. -/
inductive Out (A : Type)
  | next (p : HttpParser) (loop : Loop) (l : Locals A)
  | exit (p : HttpParser) (adv : Nat) (l : Locals A)

/-- The work on the byte `ch`. -/
def Prog.run (s : Settings A) (ch : UInt8) : Prog → Locals A → Out A
  | .next p loop, l => .next p loop (l.push ch)
  | .exit p adv, l => .exit p adv l
  | .mark m k, l => k.run s ch (l.mark m)
  | .data m withByte adv p k, l =>
    match l.marks m with
    | none => k.run s ch l
    | some bs =>
      let r := s.data m p (if withByte then bs ++ [ch] else bs) l.app
      let l' := { l with app := r.1 }
      if r.2 ≠ 0 then .exit { p with http_errno := m.errno } adv l' else k.run s ch (l'.setMark m none)
  | .notify n adv p k, l =>
    let r := s.notify n p l.app
    let l' := { l with app := r.1 }
    if r.2 ≠ 0 then .exit { p with http_errno := n.errno } adv l' else k.run s ch l'
  | .headersComplete p k, l =>
    let r := s.headersComplete p l.app
    (k r.2).run s ch { l with app := r.1 }

/-- What a call of `http_parser_execute` has done: its result, the parser, and what
the callbacks worked on. -/
structure Executed (A : Type) where
  parsed : Nat
  parser : HttpParser
  app : A

/-- The callbacks for the marks that are left at the end of the data. -/
def flushMarks (s : Settings A) (len : Nat) (p : HttpParser) : List Mark → Locals A → Executed A
  | [], l => ⟨len, p, l.app⟩
  | m :: ms, l =>
    match l.marks m with
    | none => flushMarks s len p ms l
    | some bs =>
      let r := s.data m p bs l.app
      if r.2 ≠ 0 then ⟨len, { p with http_errno := m.errno }, r.1⟩
      else flushMarks s len p ms ({ l with app := r.1 }.setMark m none)

/-- The end of the data.  An inner loop counts the bytes it has taken but the first. -/
def endOfData (s : Settings A) (len : Nat) (p : HttpParser) (loop : Loop) (l : Locals A) : Executed A :=
  let flush p := flushMarks s len p [.header_field, .header_value, .url, .body, .status] l
  let counted k :=
    if maxHeaderSize < (addRead (k - 1) p).nread then
      ⟨len - 1, { addRead (k - 1) p with http_errno := .HEADER_OVERFLOW }, l.app⟩
    else flush (addRead (k - 1) p)
  match loop with
  | .outer => flush p
  | .field k => counted k
  | .value k _ => counted k

/-- The loop over the bytes, after `pos` of them. -/
def executeLoop (s : Settings A) : Bytes → Nat → HttpParser → Loop → Locals A → Executed A
  | [], pos, p, loop, l => endOfData s pos p loop l
  | ch :: rest, pos, p, loop, l =>
    match (byteProg loop ch p).run s ch l with
    | .next p loop l => executeLoop s rest (pos + 1) p loop l
    | .exit p adv l => ⟨pos + adv, p, l.app⟩

/-- The marks at the start of the data. -/
def startMarks (st : State) : Mark → Option Bytes
  | .header_field => if st = .s_header_field then some [] else none
  | .header_value => if st = .s_header_value then some [] else none
  | .url => if st.inUrl then some [] else none
  | .body => none
  | .status => if st = .s_res_status then some [] else none

/-- `http_parser_execute(parser, settings, data, len)`. -/
def http_parser_execute (s : Settings A) (p : HttpParser) (data : Bytes) (app : A) : Executed A :=
  if p.http_errno ≠ .OK then ⟨0, p, app⟩
  else if data = [] then
    match p.state with
    | .s_body_identity_eof =>
      let r := s.notify .message_complete p app
      ⟨0, if r.2 ≠ 0 then { p with http_errno := .CB_message_complete } else p, r.1⟩
    | .s_dead | .s_start_req_or_res | .s_start_res | .s_start_req => ⟨0, p, app⟩
    | _ => ⟨1, { p with http_errno := .INVALID_EOF_STATE }, app⟩
  else executeLoop s data 0 p .outer ⟨startMarks p.state, app⟩

end HttpParsing
end Wuchat
