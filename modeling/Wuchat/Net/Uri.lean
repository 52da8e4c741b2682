/-
# URIs

`URI::Create` keeps the parts that `http_parser_parse_url` finds in a URL, each
without its delimiters: a host has no brackets any more, and a userinfo before
the host no `@`.  A port that is not there is the default of the scheme, or 0.
`toString` puts the parts together again and writes the port where it is not the
default.

`create_text` says what `Create` makes of the pieces of a URL.  Its exception is
that of `std::stoi`, which does not see the digits of a port where the offset of
the port does not fit 16 bits.
-/

import Mathlib.Algebra.Group.Int.Defs
import Wuchat.Http.HeaderLines
import Wuchat.HttpParser.ParsedUrl

namespace Wuchat
namespace Net

open Foundation Http HttpParsing

/-- What `std::stoi` throws. -/
inductive StdException
  | invalid_argument | out_of_range
  deriving DecidableEq, Repr

/-- `isspace(c)`. -/
def isSpace (c : UInt8) : Bool := c == 32 || (9 ≤ c && c ≤ 13)

/-- `std::stoi(s)`: an `int` behind white space; what follows its digits is not read. -/
def stoi (s : Bytes) : Except StdException Int :=
  let s := s.dropWhile isSpace
  let sign : Int := if s.head? = some (chr '-') then -1 else 1
  let s := if s.head? = some (chr '-') ∨ s.head? = some (chr '+') then s.tail else s
  let ds := s.takeWhile isNum
  if ds = [] then .error .invalid_argument
  else
    let v := sign * digitsFrom 0 ds
    if -2 ^ 31 ≤ v ∧ v < 2 ^ 31 then .ok v else .error .out_of_range

/-- `URI`. -/
structure URI where
  m_scheme : Bytes
  m_userinfo : Bytes
  m_host : Bytes
  m_path : Bytes
  m_query : Bytes
  m_fragment : Bytes
  m_port : UInt16
  deriving DecidableEq, Repr

namespace URI

/-- What `Create` sets the port to. -/
def createPort (url : Bytes) (parser : HttpParserUrl) (scheme : Bytes) : Except StdException UInt16 :=
  match parser.text url .UF_PORT with
  | some s => (stoi s).map UInt16.ofInt
  | none =>
    if scheme = str "http" ∨ scheme = str "ws" then .ok 80
    else if scheme = str "https" ∨ scheme = str "wss" then .ok 443
    else .ok 0

/-- `URI::Create(url)`; none for the null pointer. -/
def Create (url : Bytes) : Except StdException (Option URI) :=
  match http_parser_parse_url url false with
  | none => .ok none
  | some parser =>
    let scheme := (parser.text url .UF_SCHEMA).getD []
    (createPort url parser scheme).map fun port => some {
      m_scheme := scheme
      m_userinfo := (parser.text url .UF_USERINFO).getD []
      m_host := (parser.text url .UF_HOST).getD []
      m_path := (parser.text url .UF_PATH).getD []
      m_query := (parser.text url .UF_QUERY).getD []
      m_fragment := (parser.text url .UF_FRAGMENT).getD []
      m_port := port }

variable (uri : URI)

/-- The path, or a slash. -/
def getPath : Bytes := if uri.m_path.isEmpty then str "/" else uri.m_path

/-- The port, or the scheme's. -/
def getPort : UInt16 :=
  if uri.m_port ≠ 0 then uri.m_port
  else if uri.m_scheme = str "http" ∨ uri.m_scheme = str "ws" then 80
  else if uri.m_scheme = str "https" ∨ uri.m_scheme = str "wss" then 443
  else uri.m_port

/-- Whether the port need not be printed. -/
def isDefaultPort : Bool :=
  if uri.m_scheme = str "http" ∨ uri.m_scheme = str "ws" then uri.m_port == 80
  else if uri.m_scheme = str "https" ∨ uri.m_scheme = str "wss" then uri.m_port == 443
  else false

/-- The URI in text. -/
def toString : Bytes :=
  uri.m_scheme ++ str "://" ++ uri.m_userinfo ++ (if uri.m_userinfo.isEmpty then [] else str "@") ++
    uri.m_host ++ (if uri.isDefaultPort then [] else str ":" ++ decimal uri.getPort.toNat) ++ uri.getPath ++
    (if uri.m_query.isEmpty then [] else str "?") ++ uri.m_query ++
    (if uri.m_fragment.isEmpty then [] else str "#") ++ uri.m_fragment

end URI

/-! ### The number of a port -/

/-- The digits of ASCII. -/
theorem toNat_of_isNum {c : UInt8} (h : isNum c = true) : 48 ≤ c.toNat ∧ c.toNat ≤ 57 := by
  simp only [isNum, Bool.and_eq_true, decide_eq_true_eq, UInt8.le_iff_toNat_le] at h
  exact h

/-- A port is a number up to `0xffff`. -/
theorem portLoop_eq {ds : Bytes} (h : ∀ c ∈ ds, isNum c = true) {v : Nat} (hv : v ≤ 0xffff) :
    portLoop v ds = if digitsFrom v ds ≤ 0xffff then some (digitsFrom v ds) else none := by
  induction ds generalizing v with
  | nil => exact (if_pos hv).symm
  | cons c ds ih =>
    obtain ⟨hc, hds⟩ := List.forall_mem_cons.mp h
    obtain ⟨hlow, hhigh⟩ := toNat_of_isNum hc
    -- nothing wraps around on digits
    have hstep : (v * 10 + (2 ^ 64 + c.toNat - 48)) % 2 ^ 64 = 10 * v + (c.toNat - 48) := by omega
    rw [portLoop, digitsFrom_cons, hstep]
    split
    · rename_i hlt
      have hle := le_digitsFrom (10 * v + (c.toNat - 48)) ds
      rw [if_neg (by omega)]
    · rename_i hle
      exact ih hds (Nat.not_lt.mp hle)

/-- The number of digits bounds the number. -/
theorem digitsFrom_lt {ds : Bytes} (h : ∀ c ∈ ds, isNum c = true) (a : Nat) :
    digitsFrom a ds < (a + 1) * 10 ^ ds.length := by
  induction ds generalizing a with
  | nil => simp [digitsFrom]
  | cons c ds ih =>
    obtain ⟨hc, hds⟩ := List.forall_mem_cons.mp h
    obtain ⟨hlow, hhigh⟩ := toNat_of_isNum hc
    have hle : (10 * a + (c.toNat - 48) + 1) * 10 ^ ds.length ≤ (10 * (a + 1)) * 10 ^ ds.length :=
      Nat.mul_le_mul_right _ (by omega)
    have hpow : (a + 1) * 10 ^ (c :: ds).length = (10 * (a + 1)) * 10 ^ ds.length := by
      rw [List.length_cons, Nat.pow_succ, Nat.mul_comm 10 (a + 1), Nat.mul_assoc, Nat.mul_comm 10]
    rw [digitsFrom_cons, hpow]
    exact Nat.lt_of_lt_of_le (ih hds _) hle

/-- `std::stoi` on the digits of a port. -/
theorem stoi_digits {d : Bytes} (hne : d ≠ []) (h : ∀ c ∈ d, isNum c = true) (hle : digitsFrom 0 d ≤ 0xffff) :
    stoi d = .ok (digitsFrom 0 d) := by
  have hchar : ∀ c, isNum c = true → isSpace c = false ∧ c ≠ chr '-' ∧ c ≠ chr '+' :=
    forall_byte (by decide +kernel)
  have htake : d.takeWhile isNum = d := List.takeWhile_eq_self_iff.mpr h
  obtain ⟨c, ds, rfl⟩ := List.exists_cons_of_ne_nil hne
  obtain ⟨hspace, hminus, hplus⟩ := hchar c (h c List.mem_cons_self)
  have hdrop : (c :: ds).dropWhile isSpace = c :: ds := by
    rw [List.dropWhile_cons, hspace, if_neg Bool.false_ne_true]
  rw [stoi, hdrop, List.head?_cons]
  simp only [Option.some.injEq, hminus, hplus, or_self, if_false, htake, hne, Int.one_mul]
  rw [if_pos (by omega)]

/-! ### `Create` on the pieces of a URL -/

namespace URI

/-- The default port of a scheme, 0 where there is none. -/
def defaultPort (scheme : Bytes) : UInt16 :=
  if scheme = str "http" ∨ scheme = str "ws" then 80
  else if scheme = str "https" ∨ scheme = str "wss" then 443
  else 0

/-- A default port has at most three digits. -/
theorem defaultPort_lt (scheme : Bytes) : (defaultPort scheme).toNat < 10 ^ 3 := by
  rw [defaultPort]
  split
  · decide
  · split <;> decide

/-- A port that is not set is the default one. -/
theorem getPort_eq (uri : URI) :
    uri.getPort = if uri.m_port = 0 then defaultPort uri.m_scheme else uri.m_port := by
  rw [getPort, defaultPort]
  by_cases hport : uri.m_port = 0
  · rw [if_neg (by simp [hport]), if_pos hport, hport]
  · rw [if_pos hport, if_neg hport]

/-- The default port is one that a scheme has. -/
theorem isDefaultPort_iff (uri : URI) :
    uri.isDefaultPort = true ↔ uri.m_port = defaultPort uri.m_scheme ∧ defaultPort uri.m_scheme ≠ 0 := by
  rw [isDefaultPort, defaultPort]
  split
  · simp
  · split <;> simp

/-- The number that the digits of a port give. -/
def portOf (p : UrlPieces) : UInt16 :=
  match p.authority.port with
  | none => defaultPort p.scheme
  | some d => UInt16.ofNat (digitsFrom 0 d)

/-- The URI of pieces. -/
def ofPieces (p : UrlPieces) : URI where
  m_scheme := p.scheme
  m_userinfo := p.authority.userinfo.getD []
  m_host := p.authority.host
  m_path := p.tail.path
  m_query := p.tail.query.getD []
  m_fragment := bareFragment (p.tail.fragment.getD [])
  m_port := portOf p

/-- The port is one of 16 bits. -/
def PortFits (p : UrlPieces) : Prop := ∀ d, p.authority.port = some d → digitsFrom 0 d ≤ 0xffff

variable {p : UrlPieces} {uri : URI} {url : Bytes}

/-- The fields behind the authority. -/
theorem create_tail {v : HttpParserUrl} (hparse : http_parser_parse_url url false = some v)
    (h : Create url = .ok (some uri)) :
    uri.m_scheme = (v.text url .UF_SCHEMA).getD [] ∧ uri.m_path = (v.text url .UF_PATH).getD [] := by
  rw [Create, hparse] at h
  dsimp only at h
  cases hport : createPort url v ((v.text url .UF_SCHEMA).getD []) with
  | error e =>
    rw [hport] at h
    cases h
  | ok port =>
    rw [hport] at h
    obtain rfl := Option.some.inj (Except.ok.inj h)
    exact ⟨rfl, rfl⟩

/-- A text that is null or a URI. -/
theorem exists_parse (h : Create url = .ok (some uri)) : ∃ v, http_parser_parse_url url false = some v := by
  cases hparse : http_parser_parse_url url false with
  | none =>
    rw [Create, hparse] at h
    cases h
  | some v => exact ⟨v, rfl⟩

/-- The fields of a URL of pieces, whatever the port. -/
theorem field_of_readPort {v : HttpParserUrl} (h : readPort url p.fields = some v) : v.field = p.fields.field := by
  rw [readPort] at h
  split at h
  · rw [Option.some.inj h]
  · obtain ⟨n, -, rfl⟩ := Option.map_eq_some_iff.mp h
    rfl

/-- The text of a field depends on the fields only. -/
theorem text_of_field {v w : HttpParserUrl} (h : v.field = w.field) (uf : UrlField) :
    v.text url uf = w.text url uf := by
  rw [HttpParserUrl.text, h, ← HttpParserUrl.text]

/-- A port of more than 16 bits is refused. -/
theorem portFits_of_create (hv : p.Valid) (htail : p.tailOff < 2 ^ 16) (h : Create p.text = .ok (some uri)) :
    PortFits p := by
  intro d hd
  have hlens := htail
  rw [UrlPieces.tailOff] at hlens
  obtain ⟨v, hparse⟩ := exists_parse h
  rw [UrlPieces.parse_url_text hv (by omega) (by omega), UrlPieces.readPort_fields htail, hd] at hparse
  dsimp only at hparse
  rw [portLoop_eq (hv.authority.port d hd).2 (by decide)] at hparse
  split at hparse
  · assumption
  · cases hparse

/-- A port of 16 bits is taken. -/
theorem exists_parse_text (hv : p.Valid) (htail : p.tailOff < 2 ^ 16) (hport : PortFits p) :
    ∃ v, http_parser_parse_url p.text false = some v ∧ v.field = p.fields.field := by
  have hlens := htail
  rw [UrlPieces.tailOff] at hlens
  rw [UrlPieces.parse_url_text hv (by omega) (by omega), UrlPieces.readPort_fields htail]
  cases hd : p.authority.port with
  | none => exact ⟨p.fields, rfl, rfl⟩
  | some d =>
    dsimp only
    rw [portLoop_eq (hv.authority.port d hd).2 (by decide), if_pos (hport d hd)]
    exact ⟨_, rfl, rfl⟩

/-- **The port of a URL of pieces.** -/
theorem createPort_text (hv : p.Valid) (htail : p.tailOff < 2 ^ 16) (hport : PortFits p) :
    createPort p.text p.fields p.scheme = .ok (portOf p) := by
  rw [createPort, HttpParserUrl.text, UrlPieces.field_port, portOf]
  cases hd : p.authority.port with
  | none =>
    simp only [Option.map_none, defaultPort]
    split
    · rfl
    · split <;> rfl
  | some d =>
    obtain ⟨hne, hnum⟩ := hv.authority.port d hd
    have hfound := (take_drop_iff_found _ _ _).mpr (UrlPieces.found_port htail hd)
    have hle := hport d hd
    have hmod : ((digitsFrom 0 d : Int) % 2 ^ 16).toNat = digitsFrom 0 d := by omega
    simp only [Option.map_some]
    rw [hfound, stoi_digits hne hnum hle, Except.map, UInt16.ofInt, hmod]

/-- **What `Create` makes of the pieces of a URL.** -/
theorem create_text (hv : p.Valid) (htail : p.tailOff < 2 ^ 16) (hport : PortFits p) :
    Create p.text = .ok (some { ofPieces p with
      m_path := (p.fields.text p.text .UF_PATH).getD []
      m_query := (p.fields.text p.text .UF_QUERY).getD []
      m_fragment := (p.fields.text p.text .UF_FRAGMENT).getD [] }) := by
  obtain ⟨v, hparse, hfield⟩ := exists_parse_text hv htail hport
  have htext : ∀ uf, v.text p.text uf = p.fields.text p.text uf := text_of_field hfield
  have hscheme := (getD_text_iff (UrlPieces.field_scheme hv) _).mpr (UrlPieces.found_scheme htail)
  have huserinfo := (getD_text_iff UrlPieces.field_userinfo _).mpr (UrlPieces.found_userinfo htail)
  have hhost := (getD_text_iff (UrlPieces.field_host hv) _).mpr (UrlPieces.found_host htail)
  have hcreate : createPort p.text v p.scheme = .ok (portOf p) := by
    rw [← createPort_text hv htail hport, createPort, createPort, htext]
  rw [Create, hparse]
  simp only [htext, hscheme, huserinfo, hhost, hcreate]
  rfl

/-- **A URL of less than `2^16` bytes comes apart into its pieces.** -/
theorem create_ofPieces (hv : p.Valid) (hlen : p.text.length < 2 ^ 16) (hport : PortFits p) :
    Create p.text = .ok (some (ofPieces p)) := by
  have htext := UrlPieces.length_text (p := p)
  have hpath := (getD_text_iff UrlPieces.field_path _).mpr (UrlPieces.found_path_of_length hlen)
  have hquery := (getD_text_iff UrlPieces.field_query _).mpr (UrlPieces.found_query_of_length hlen)
  have hfragment := (getD_text_iff UrlPieces.field_fragment _).mpr (UrlPieces.found_fragment_of_length hlen)
  rw [create_text hv (by omega) hport, hpath, hquery, hfragment]
  rfl

example : (Create (str "http://a:b@host.com/p/a/t/h?query=string#hash")).map (Option.map toString) =
    .ok (some (str "http://a:b@host.com/p/a/t/h?query=string#hash")) := by decide

end URI

end Net
end Wuchat
