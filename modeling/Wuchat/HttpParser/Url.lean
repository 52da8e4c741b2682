/-
# The vendored HTTP parser: URLs

`parse_url_char`, `http_parse_host` and `http_parser_parse_url`.  Offsets and lengths of
the parts of a URL are `uint16_t`; a part of a URL of more than 65535 bytes gets them
modulo `2^16`.
-/

import Wuchat.HttpParser.Basic

namespace Wuchat
namespace HttpParsing

open Foundation Http

/-- The last part of the cases `s_req_server_with_at`, `s_req_server_start` and
`s_req_server`. -/
def serverChar (ch : UInt8) : State :=
  if ch = chr '/' then .s_req_path
  else if ch = chr '?' then .s_req_query_string_start
  else if ch = chr '@' then .s_req_server_with_at
  else if isUserinfoChar ch ∨ ch = chr '[' ∨ ch = chr ']' then .s_req_server
  else .s_dead

/-- `parse_url_char(s, ch)`. -/
def parse_url_char (s : State) (ch : UInt8) : State :=
  if ch = chr ' ' ∨ ch = CR ∨ ch = LF ∨ ch = 9 ∨ ch = 12 then .s_dead
  else match s with
  | .s_req_spaces_before_url =>
    if ch = chr '/' ∨ ch = chr '*' then .s_req_path else if isAlpha ch then .s_req_schema else .s_dead
  | .s_req_schema =>
    if isAlpha ch then .s_req_schema else if ch = chr ':' then .s_req_schema_slash else .s_dead
  | .s_req_schema_slash => if ch = chr '/' then .s_req_schema_slash_slash else .s_dead
  | .s_req_schema_slash_slash => if ch = chr '/' then .s_req_server_start else .s_dead
  | .s_req_server_with_at => if ch = chr '@' then .s_dead else serverChar ch
  | .s_req_server_start => serverChar ch
  | .s_req_server => serverChar ch
  | .s_req_path =>
    if isUrlChar ch then .s_req_path
    else if ch = chr '?' then .s_req_query_string_start
    else if ch = chr '#' then .s_req_fragment_start
    else .s_dead
  | .s_req_query_string_start | .s_req_query_string =>
    if isUrlChar ch then .s_req_query_string
    else if ch = chr '?' then .s_req_query_string
    else if ch = chr '#' then .s_req_fragment_start
    else .s_dead
  | .s_req_fragment_start =>
    if isUrlChar ch then .s_req_fragment
    else if ch = chr '?' then .s_req_fragment
    else if ch = chr '#' then .s_req_fragment_start
    else .s_dead
  | .s_req_fragment =>
    if isUrlChar ch ∨ ch = chr '?' ∨ ch = chr '#' then .s_req_fragment else .s_dead
  | _ => .s_dead

/-- `enum http_parser_url_fields`. -/
inductive UrlField
  | UF_SCHEMA | UF_HOST | UF_PORT | UF_PATH | UF_QUERY | UF_FRAGMENT | UF_USERINFO
  deriving DecidableEq, Repr

/-- `struct http_parser_url`: the fields that are set, with offset and length. -/
structure HttpParserUrl where
  port : Nat
  field : UrlField → Option (Nat × Nat)

/-- `field_data[uf].off = off; field_data[uf].len = len`, and the bit of `field_set`. -/
def HttpParserUrl.set (u : HttpParserUrl) (uf : UrlField) (off len : Nat) : HttpParserUrl :=
  { u with field := fun uf' => if uf' = uf then some (off % 2 ^ 16, len % 2 ^ 16) else u.field uf' }

/-- `field_data[uf].len++`. -/
def HttpParserUrl.grow (u : HttpParserUrl) (uf : UrlField) : HttpParserUrl :=
  let (off, len) := (u.field uf).getD (0, 0)
  u.set uf off (len + 1)

/-- `enum http_host_state`. -/
inductive HostState
  | s_http_host_dead | s_http_userinfo_start | s_http_userinfo | s_http_host_start
  | s_http_host_v6_start | s_http_host | s_http_host_v6 | s_http_host_v6_end
  | s_http_host_v6_zone_start | s_http_host_v6_zone | s_http_host_port_start | s_http_host_port
  deriving DecidableEq, Repr

/-- `http_parse_host_char(s, ch)`. -/
def http_parse_host_char (s : HostState) (ch : UInt8) : HostState :=
  match s with
  | .s_http_userinfo | .s_http_userinfo_start =>
    if ch = chr '@' then .s_http_host_start
    else if isUserinfoChar ch then .s_http_userinfo
    else .s_http_host_dead
  | .s_http_host_start =>
    if ch = chr '[' then .s_http_host_v6_start
    else if isHostChar ch then .s_http_host
    else .s_http_host_dead
  | .s_http_host =>
    if isHostChar ch then .s_http_host
    else if ch = chr ':' then .s_http_host_port_start
    else .s_http_host_dead
  | .s_http_host_v6_end => if ch = chr ':' then .s_http_host_port_start else .s_http_host_dead
  | .s_http_host_v6 =>
    if ch = chr ']' then .s_http_host_v6_end
    else if isHex ch ∨ ch = chr ':' ∨ ch = chr '.' then .s_http_host_v6
    else if ch = chr '%' then .s_http_host_v6_zone_start
    else .s_http_host_dead
  | .s_http_host_v6_start =>
    if isHex ch ∨ ch = chr ':' ∨ ch = chr '.' then .s_http_host_v6 else .s_http_host_dead
  | .s_http_host_v6_zone =>
    if ch = chr ']' then .s_http_host_v6_end
    else if isAlphanum ch ∨ ch ∈ str "%.-_~" then .s_http_host_v6_zone
    else .s_http_host_dead
  | .s_http_host_v6_zone_start =>
    if isAlphanum ch ∨ ch ∈ str "%.-_~" then .s_http_host_v6_zone else .s_http_host_dead
  | .s_http_host_port | .s_http_host_port_start =>
    if isNum ch then .s_http_host_port else .s_http_host_dead
  | .s_http_host_dead => .s_http_host_dead

/-- What a character of the host does to the fields. -/
def hostField (u : HttpParserUrl) (s new_s : HostState) (i : Nat) : HttpParserUrl :=
  match new_s with
  | .s_http_host => if s ≠ .s_http_host then u.set .UF_HOST i (hostLen u + 1) else u.grow .UF_HOST
  | .s_http_host_v6 => if s ≠ .s_http_host_v6 then u.set .UF_HOST i (hostLen u + 1) else u.grow .UF_HOST
  | .s_http_host_v6_zone_start | .s_http_host_v6_zone => u.grow .UF_HOST
  | .s_http_host_port => if s ≠ .s_http_host_port then u.set .UF_PORT i 1 else u.grow .UF_PORT
  | .s_http_userinfo => if s ≠ .s_http_userinfo then u.set .UF_USERINFO i 1 else u.grow .UF_USERINFO
  | _ => u
where
  /-- The length of the host so far. -/
  hostLen (u : HttpParserUrl) : Nat := ((u.field .UF_HOST).getD (0, 0)).2

/-- The loop of `http_parse_host`, on the characters from the offset `i` on. -/
def hostLoop : HostState → HttpParserUrl → Nat → Bytes → Option (HostState × HttpParserUrl)
  | s, u, _, [] => some (s, u)
  | s, u, i, ch :: rest =>
    let new_s := http_parse_host_char s ch
    if new_s = .s_http_host_dead then none else hostLoop new_s (hostField u s new_s i) (i + 1) rest

/-- `http_parse_host(buf, u, found_at)`; none when it returns `1`. -/
def http_parse_host (buf : Bytes) (u : HttpParserUrl) (found_at : Bool) : Option HttpParserUrl := do
  let (off, len) ← u.field .UF_HOST
  let start : HostState := if found_at then .s_http_userinfo_start else .s_http_host_start
  let (s, u) ← hostLoop start (u.set .UF_HOST off 0) off ((buf.drop off).take len)
  match s with
  | .s_http_host_start | .s_http_host_v6_start | .s_http_host_v6 | .s_http_host_v6_zone_start
  | .s_http_host_v6_zone | .s_http_host_port_start | .s_http_userinfo | .s_http_userinfo_start => none
  | _ => some u

/-- The field a state belongs to; none for a delimiter. -/
def urlField : State → Option UrlField
  | .s_req_schema => some .UF_SCHEMA
  | .s_req_server_with_at | .s_req_server => some .UF_HOST
  | .s_req_path => some .UF_PATH
  | .s_req_query_string => some .UF_QUERY
  | .s_req_fragment => some .UF_FRAGMENT
  | _ => none

/-- The loop of `http_parser_parse_url`, on the characters from the offset `i` on: the
fields and whether an `@` was found; none when it returns `1`. -/
def urlLoop : State → Option UrlField → Bool → HttpParserUrl → Nat → Bytes → Option (HttpParserUrl × Bool)
  | _, _, found_at, u, _, [] => some (u, found_at)
  | s, old_uf, found_at, u, i, ch :: rest =>
    let s := parse_url_char s ch
    if s = .s_dead then none
    else match urlField s with
    | none => urlLoop s old_uf found_at u (i + 1) rest
    | some uf =>
      let found_at := found_at || s == .s_req_server_with_at
      if old_uf = some uf then urlLoop s old_uf found_at (u.grow uf) (i + 1) rest
      else urlLoop s (some uf) found_at (u.set uf i 1) (i + 1) rest

/-- The number of a port, as an `unsigned long`; none above `0xffff`.  The characters are
digits unless the offset of the port does not fit 16 bits. -/
def portLoop : Nat → Bytes → Option Nat
  | v, [] => some v
  | v, ch :: rest =>
    let v := (v * 10 + (2 ^ 64 + ch.toNat - 48)) % 2 ^ 64
    if 0xffff < v then none else portLoop v rest

/-- `http_parser_parse_url(buf, buflen, is_connect, u)`; none when it returns `1`. -/
def http_parser_parse_url (buf : Bytes) (is_connect : Bool) : Option HttpParserUrl :=
  if buf = [] then none
  else do
    let start : State := if is_connect then .s_req_server_start else .s_req_spaces_before_url
    let (u, found_at) ← urlLoop start none false ⟨0, fun _ => none⟩ 0 buf
    if (u.field .UF_SCHEMA).isSome ∧ (u.field .UF_HOST).isNone then none
    else do
      let u ← if (u.field .UF_HOST).isSome then http_parse_host buf u found_at else some u
      let onlyHostPort := (u.field .UF_HOST).isSome ∧ (u.field .UF_PORT).isSome ∧
        (u.field .UF_SCHEMA).isNone ∧ (u.field .UF_PATH).isNone ∧ (u.field .UF_QUERY).isNone ∧
        (u.field .UF_FRAGMENT).isNone ∧ (u.field .UF_USERINFO).isNone
      if is_connect ∧ ¬onlyHostPort then none
      else match u.field .UF_PORT with
      | none => some u
      | some (off, len) => do
        let v ← portLoop 0 ((buf.drop off).take len)
        some { u with port := v }

/-- `std::string(buf + off, len)` of a field that is set. -/
def HttpParserUrl.text (u : HttpParserUrl) (buf : Bytes) (uf : UrlField) : Option Bytes :=
  (u.field uf).map fun (off, len) => (buf.drop off).take len

end HttpParsing
end Wuchat
