/-
# Reading a printed URI back

`toString` writes a host as `Create` keeps it, without brackets.  An IPv6 address
in brackets therefore comes out as a bare one, and `Create` then takes its first
colon for that of a port.  The printed text can also be longer than the URL was,
by a slash for an empty path and by a port, at most three bytes together
(`length_printed`), and a URL that almost fills 16 bits has then parts that begin
beyond them.

`toString_readsBack_iff`: of the URLs of at most 65535 bytes exactly those are
read back whose host has neither a colon nor a zone and whose printed parts are
in reach.  Below 65533 bytes the printed parts always are
(`survives_iff_of_length_le`).
-/

import Wuchat.Net.Uri
import Mathlib.Data.List.DropRight

namespace Wuchat
namespace Net

open Foundation Http HttpParsing

namespace URI

/-- **Two URIs whose getters agree.** -/
structure Same (uri uri' : URI) : Prop where
  scheme : uri'.m_scheme = uri.m_scheme
  userinfo : uri'.m_userinfo = uri.m_userinfo
  host : uri'.m_host = uri.m_host
  port : uri'.getPort = uri.getPort
  path : uri'.getPath = uri.getPath
  query : uri'.m_query = uri.m_query
  fragment : uri'.m_fragment = uri.m_fragment

/-- The printed text is read back. -/
def ReadsBack (uri : URI) : Prop := ∃ uri', Create uri.toString = .ok (some uri') ∧ Same uri uri'

/-! ### Where the printed parts begin -/

section

variable (uri : URI)

/-- The length of the port that is printed, with its colon. -/
def portLength : Nat := if uri.isDefaultPort then 0 else 1 + (decimal uri.getPort.toNat).length

/-- The length of the userinfo that is printed, with its `@`. -/
def userinfoLength : Nat := if uri.m_userinfo.isEmpty then 0 else uri.m_userinfo.length + 1

/-- Where the path stands in the printed URI. -/
def pathOff : Nat :=
  uri.m_scheme.length + 3 + (uri.userinfoLength + (uri.m_host.length + uri.portLength))

/-- Where the query does. -/
def queryOff : Nat := uri.pathOff + uri.getPath.length + 1

/-- Where the fragment does. -/
def fragmentOff : Nat :=
  uri.pathOff + uri.getPath.length + (if uri.m_query.isEmpty then 0 else uri.m_query.length + 1) + 1

/-- The pieces of the printed text. -/
def printed : UrlPieces where
  scheme := uri.m_scheme
  authority := {
    userinfo := if uri.m_userinfo.isEmpty then none else some uri.m_userinfo
    bracketed := false
    host := uri.m_host
    port := if uri.isDefaultPort then none else some (decimal uri.getPort.toNat) }
  tail := {
    path := uri.getPath
    query := if uri.m_query.isEmpty then none else some uri.m_query
    fragment := if uri.m_fragment.isEmpty then none else some uri.m_fragment }

end

/-- A printed part whose offset fits, or that is read where the offset points instead. -/
def InReach (url : Bytes) (off : Nat) (part : Bytes) : Prop := off < 2 ^ 16 ∨ part <+: url.drop (off - 2 ^ 16)

/-- **The pieces that come back**: the host has no colon and no zone, and what is
printed behind the authority is in reach. -/
structure Survives (p : UrlPieces) : Prop where
  colon : chr ':' ∉ p.authority.host
  zone : chr '%' ∉ p.authority.host
  path : (ofPieces p).pathOff < 2 ^ 16
  query : InReach p.text (ofPieces p).queryOff (ofPieces p).m_query
  fragment : InReach p.text (ofPieces p).fragmentOff (ofPieces p).m_fragment

variable {uri : URI} {p : UrlPieces}

/-- `toString` prints these pieces. -/
theorem text_printed (uri : URI) : uri.printed.text = uri.toString := by
  have huserinfo : uri.printed.authority.userinfoText =
      uri.m_userinfo ++ (if uri.m_userinfo.isEmpty then [] else str "@") := by
    rw [Authority.userinfoText, printed]
    cases uri.m_userinfo <;> rfl
  have hport : uri.printed.authority.portText =
      if uri.isDefaultPort then [] else str ":" ++ decimal uri.getPort.toNat := by
    rw [Authority.portText, printed]
    cases uri.isDefaultPort <;> rfl
  have hquery : uri.printed.tail.queryText = (if uri.m_query.isEmpty then [] else str "?") ++ uri.m_query := by
    rw [Tail.queryText, printed]
    cases uri.m_query <;> rfl
  have hfragment : uri.printed.tail.fragmentText =
      (if uri.m_fragment.isEmpty then [] else str "#") ++ uri.m_fragment := by
    rw [Tail.fragmentText, printed]
    cases uri.m_fragment <;> rfl
  have hhost : uri.printed.authority.hostText = uri.m_host := rfl
  rw [UrlPieces.text, splitText, Authority.text, Tail.text, huserinfo, hport, hquery, hfragment, hhost, toString]
  simp [printed]

/-- The length of the printed authority. -/
theorem length_authority_printed (uri : URI) :
    uri.printed.authority.text.length = uri.userinfoLength + (uri.m_host.length + uri.portLength) := by
  have huserinfo : uri.printed.authority.userinfoText.length = uri.userinfoLength := by
    rw [Authority.userinfoText, printed, userinfoLength]
    cases uri.m_userinfo <;> simp
  have hport : uri.printed.authority.portText.length = uri.portLength := by
    rw [Authority.portText, printed, portLength]
    cases uri.isDefaultPort <;> simp [Nat.add_comm]
  rw [UrlPieces.length_authority, huserinfo, hport]
  rfl

/-- The path stands behind it. -/
theorem tailOff_printed (uri : URI) : uri.printed.tailOff = uri.pathOff := by
  rw [UrlPieces.tailOff, length_authority_printed]
  rfl

/-- The length of the queries that are printed with a delimiter. -/
theorem length_queryText_printed (uri : URI) :
    uri.printed.tail.queryText.length = if uri.m_query.isEmpty then 0 else uri.m_query.length + 1 := by
  rw [Tail.queryText, printed]
  cases uri.m_query <;> simp

/-- The length of the printed fragment. -/
theorem length_fragmentText_printed (uri : URI) :
    uri.printed.tail.fragmentText.length = if uri.m_fragment.isEmpty then 0 else uri.m_fragment.length + 1 := by
  rw [Tail.fragmentText, printed]
  cases uri.m_fragment <;> simp

/-- The length of the printed text. -/
theorem length_text_printed (uri : URI) : uri.printed.text.length =
    uri.pathOff + (uri.getPath.length + ((if uri.m_query.isEmpty then 0 else uri.m_query.length + 1) +
      if uri.m_fragment.isEmpty then 0 else uri.m_fragment.length + 1)) := by
  rw [UrlPieces.length_text, tailOff_printed, Tail.text, List.length_append, List.length_append,
    length_queryText_printed, length_fragmentText_printed]
  rfl

/-- An empty path is printed as a slash. -/
theorem length_getPath_le (p : UrlPieces) : (ofPieces p).getPath.length ≤ p.tail.path.length + 1 := by
  have hm : (ofPieces p).m_path = p.tail.path := rfl
  rw [getPath, hm]
  split
  · exact Nat.le_add_left _ _
  · omega

/-- **A printed port is longer by two bytes at most.** -/
theorem portLength_le (hv : p.Valid) (hport : PortFits p) :
    (ofPieces p).portLength ≤ p.authority.portText.length + 2 := by
  have hpt : p.authority.portText = (p.authority.port.map fun d => chr ':' :: d).getD [] := rfl
  have hm : (ofPieces p).m_port = portOf p := rfl
  have hs : (ofPieces p).m_scheme = p.scheme := rfl
  rw [portLength]
  by_cases hdefault : (ofPieces p).isDefaultPort = true
  · rw [if_pos hdefault]
    exact Nat.zero_le _
  rw [if_neg hdefault, getPort_eq]
  rw [isDefaultPort_iff, hm, hs] at hdefault
  rw [hm, hs, hpt]
  cases hd : p.authority.port with
  | none =>
    -- a scheme without a default port
    have hof : portOf p = defaultPort p.scheme := by rw [portOf, hd]
    have hzero : defaultPort p.scheme = 0 := by simpa [hof] using hdefault
    rw [hof, hzero, if_pos rfl]
    decide
  | some d =>
    have hof : portOf p = UInt16.ofNat (digitsFrom 0 d) := by rw [portOf, hd]
    obtain ⟨hne, hnum⟩ := hv.authority.port d hd
    have hpos : 0 < d.length := List.length_pos_iff.mpr hne
    have hlen : ((Option.map (fun d => chr ':' :: d) (some d)).getD []).length = d.length + 1 := rfl
    rw [hlen]
    split
    · have := length_decimal_le (defaultPort_lt p.scheme) (by decide)
      omega
    · have hlt := digitsFrom_lt hnum 0
      rw [Nat.zero_add, Nat.one_mul] at hlt
      have hnat : (portOf p).toNat = digitsFrom 0 d := by
        have := hport d hd
        rw [hof, UInt16.toNat_ofNat']
        omega
      have := length_decimal_le hlt hpos
      rw [hnat]
      omega

/-- The printed authority is longer by two bytes at most. -/
theorem length_authority_le (hv : p.Valid) (hport : PortFits p) :
    (ofPieces p).printed.authority.text.length ≤ p.authority.text.length + 2 := by
  have hle := portLength_le hv hport
  have huserinfo : (ofPieces p).userinfoLength ≤ p.authority.userinfoText.length := by
    rw [userinfoLength, ofPieces, Authority.userinfoText]
    cases p.authority.userinfo with
    | none => exact Nat.zero_le _
    | some x => cases x <;> simp
  have hhost : (ofPieces p).m_host.length = p.authority.host.length := rfl
  rw [length_authority_printed, hhost, UrlPieces.length_authority, UrlPieces.length_hostText]
  omega

/-- **The printed text is longer by three bytes at most.** -/
theorem length_printed (hv : p.Valid) (hport : PortFits p) :
    (ofPieces p).printed.text.length ≤ p.text.length + 3 := by
  have hauth := length_authority_le hv hport
  have hpath := length_getPath_le p
  have hquery : (ofPieces p).printed.tail.queryText.length ≤ p.tail.queryText.length := by
    rw [length_queryText_printed, ofPieces, Tail.queryText]
    cases p.tail.query with
    | none => exact Nat.zero_le _
    | some q => cases q <;> simp
  have hfragment : (ofPieces p).printed.tail.fragmentText.length ≤ p.tail.fragmentText.length := by
    rw [length_fragmentText_printed, ofPieces, Tail.fragmentText]
    cases p.tail.fragment with
    | none => exact Nat.zero_le _
    | some f =>
      have hbare : (bareFragment f).length ≤ f.length := (List.dropWhile_suffix _).length_le
      simp only [Option.getD_some, Option.map_some, List.length_cons]
      split
      · omega
      · omega
  have hscheme : (ofPieces p).printed.scheme = p.scheme := rfl
  have htail : (ofPieces p).printed.tail.path = (ofPieces p).getPath := rfl
  rw [UrlPieces.length_text, UrlPieces.length_text, UrlPieces.tailOff, UrlPieces.tailOff, UrlPieces.authorityOff,
    UrlPieces.authorityOff, hscheme, Tail.text, Tail.text, htail]
  simp only [List.length_append]
  omega

/-! ### The printed pieces -/

/-- **The outer loop takes a printed authority**, whatever its host. -/
theorem inUrl_printed (hv : p.Valid) : (ofPieces p).printed.authority.InUrl := by
  have h := hv.authority.inUrl
  refine ⟨fun x hx => ?_, h.host_ne, h.host, fun d hd => ?_⟩
  · rw [printed, ofPieces] at hx
    cases hu : p.authority.userinfo with
    | none =>
      rw [hu] at hx
      cases hx
    | some y =>
      rw [hu] at hx
      cases y with
      | nil => cases hx
      | cons ch y =>
        obtain rfl := Option.some.inj hx
        exact h.userinfo _ hu
  · rw [printed] at hd
    dsimp only at hd
    split at hd
    · cases hd
    · obtain rfl := Option.some.inj hd
      exact ⟨decimal_ne_nil _, fun ch hch => isNum_of_mem_decimal hch⟩

/-- A path begins with a slash. -/
theorem head_getPath (hv : p.Valid) : (ofPieces p).getPath.head? = some (chr '/') := by
  have hm : (ofPieces p).m_path = p.tail.path := rfl
  rw [getPath, hm]
  split
  · decide
  · rename_i hne
    exact hv.tail.slash.resolve_left (by simpa using hne)

/-- What is printed behind the authority is valid. -/
theorem tail_printed (hv : p.Valid) : (ofPieces p).printed.tail.Valid := by
  have hslash := head_getPath hv
  have hquery : ∀ ch ∈ (ofPieces p).m_query, isQueryChar ch = true := by
    rw [ofPieces]
    cases hq : p.tail.query with
    | none => simp
    | some q => exact hv.tail.query q hq
  have hfragment : ∀ ch ∈ (ofPieces p).m_fragment, isFragmentChar ch = true := by
    rw [ofPieces]
    cases hf : p.tail.fragment with
    | none => simp [bareFragment]
    | some f => exact fun ch hch => hv.tail.fragment f hf ch ((List.dropWhile_suffix _).subset hch)
  refine ⟨.inr hslash, ?_, fun q hq => ?_, fun f hf => ?_, fun hp => ?_⟩
  · show ∀ ch ∈ (ofPieces p).getPath, isUrlChar ch = true
    rw [getPath]
    split
    · decide +kernel
    · exact hv.tail.path
  · rw [printed] at hq
    dsimp only at hq
    split at hq
    · cases hq
    · exact Option.some.inj hq ▸ hquery
  · rw [printed] at hf
    dsimp only at hf
    split at hf
    · cases hf
    · exact Option.some.inj hf ▸ hfragment
  · have hnil : (ofPieces p).getPath = [] := hp
    rw [hnil] at hslash
    cases hslash

/-- A host without a colon and a zone needs no brackets. -/
theorem valid_printed (hv : p.Valid) (hcolon : chr ':' ∉ p.authority.host) (hzone : chr '%' ∉ p.authority.host) :
    (ofPieces p).printed.Valid := by
  have hin := inUrl_printed hv
  refine ⟨hv.scheme_ne, hv.scheme, ⟨hin.userinfo, ?_, hin.port⟩, tail_printed hv⟩
  have hnb : (ofPieces p).printed.authority.bracketed = false := rfl
  have hph : (ofPieces p).printed.authority.host = p.authority.host := rfl
  rw [hnb, if_neg Bool.false_ne_true, hph]
  refine ⟨hv.authority.inUrl.host_ne, ?_⟩
  have hhost := hv.authority.host
  split at hhost
  · obtain ⟨addr, zone, hz, -, haddr, hzone'⟩ := hhost
    rw [hz] at hcolon hzone ⊢
    rcases hzone' with rfl | ⟨bs, rfl, -, -⟩
    · rw [List.append_nil] at hcolon ⊢
      intro ch hch
      refine ((isUserinfoChar_of ch).2.2.2.1 (haddr ch hch)).2.resolve_left ?_
      rintro rfl
      exact hcolon hch
    · exact absurd (List.mem_append_right addr List.mem_cons_self) hzone
  · exact hhost.2

/-- A printed port fits 16 bits. -/
theorem portFits_printed (uri : URI) : PortFits uri.printed := by
  intro d hd
  rw [printed] at hd
  dsimp only at hd
  split at hd
  · cases hd
  · obtain rfl := Option.some.inj hd
    have := uri.getPort.toNat_lt
    rw [digitsFrom_decimal]
    omega

/-- **The port that is read back** is the one that `getPort` gave. -/
theorem getPort_printed {uri' : URI} (hscheme : uri'.m_scheme = uri.m_scheme)
    (hport : uri'.m_port = portOf uri.printed) :
    uri'.getPort = uri.getPort := by
  have hof : portOf uri.printed = if uri.isDefaultPort then defaultPort uri.m_scheme else uri.getPort := by
    rw [portOf, printed]
    cases uri.isDefaultPort with
    | true => rfl
    | false =>
      show UInt16.ofNat (digitsFrom 0 (decimal uri.getPort.toNat)) = _
      rw [digitsFrom_decimal, UInt16.ofNat_toNat]
      rfl
  rw [getPort_eq uri', hscheme, hport, hof]
  by_cases hdefault : uri.isDefaultPort = true
  · obtain ⟨hm, hne⟩ := (isDefaultPort_iff uri).mp hdefault
    rw [if_pos hdefault, if_neg hne, getPort_eq uri, hm, if_neg hne]
  · rw [if_neg hdefault]
    split
    · rename_i hzero
      -- the port 0, which stands for the default
      rw [getPort_eq uri] at hzero ⊢
      split
      · rfl
      · rename_i hne
        rw [if_neg hne] at hzero
        exact absurd hzero hne
    · rfl

/-! ### What is in reach -/

/-- A short text in the part that two texts begin with. -/
theorem prefix_drop_iff {s r part : Bytes} {k : Nat} (h : k + part.length ≤ s.length) :
    part <+: (s ++ r).drop k ↔ part <+: s.drop k := by
  rw [List.drop_append_of_le_length (by omega)]
  constructor
  · intro hpre
    refine List.prefix_of_prefix_length_le hpre (List.prefix_append _ _) ?_
    rw [List.length_drop]
    omega
  · exact fun hpre => hpre.trans (List.prefix_append _ _)

/-- **A printed part is found exactly if it is in reach.**  Of a part that begins
beyond 16 bits at most two bytes are left, and the text begins as the URL did. -/
theorem found_iff_inReach {url text s r r' part : Bytes} {off : Nat} (hurl : url = s ++ r) (htext : text = s ++ r')
    (hs : 2 ≤ s.length) (hend : part ≠ [] → off + part.length ≤ 2 ^ 16 + 2) (hlen : part.length < 2 ^ 16)
    (hfound : off < 2 ^ 16 → Found text off part) : Found text off part ↔ InReach url off part := by
  by_cases hoff : off < 2 ^ 16
  · exact ⟨fun _ => .inl hoff, fun _ => hfound hoff⟩
  by_cases hne : part = []
  · subst hne
    exact ⟨fun _ => .inr List.nil_prefix, fun _ => found_nil _ _⟩
  · have hle := hend hne
    have hpos := List.length_pos_iff.mpr hne
    have hmod : off % 2 ^ 16 = off - 2 ^ 16 := by omega
    have hshort : off - 2 ^ 16 + part.length ≤ s.length := by omega
    rw [Found, InReach, hmod, hurl, htext, prefix_drop_iff hshort, prefix_drop_iff hshort]
    exact ⟨fun h => .inr h.2, fun h => ⟨hlen, h.resolve_left hoff⟩⟩

/-! ### The parts of the printed text -/

/-- The query is printed as it is. -/
theorem query_printed (uri : URI) : uri.printed.tail.query.getD [] = uri.m_query := by
  rw [printed]
  cases uri.m_query <;> rfl

/-- A fragment that `Create` kept has lost the `#`s before it. -/
theorem fragment_printed (p : UrlPieces) :
    (ofPieces p).printed.tail.fragment.getD [] = (ofPieces p).m_fragment ∧
      bareFragment (ofPieces p).m_fragment = (ofPieces p).m_fragment := by
  constructor
  · rw [printed]
    cases (ofPieces p).m_fragment <;> rfl
  · rw [ofPieces, bareFragment, bareFragment, List.dropWhile_idempotent]

/-- It stands behind the path. -/
theorem queryOff_printed (uri : URI) : uri.printed.tail.queryOff uri.printed.tailOff = uri.queryOff := by
  rw [tailOff_printed]
  rfl

/-- The fragment stands behind the query. -/
theorem bareOff_printed (p : UrlPieces) : (ofPieces p).printed.bareOff = (ofPieces p).fragmentOff := by
  obtain ⟨hfragment, hbare⟩ := fragment_printed p
  rw [UrlPieces.bareOff, hfragment, hbare, Nat.sub_self, Nat.add_zero, Tail.fragmentOff, tailOff_printed,
    length_queryText_printed]
  rfl

/-- The texts of the fields behind a printed authority. -/
theorem text_tail_iff {r : UrlPieces} (htail : r.tail = (ofPieces p).printed.tail)
    (hoff : r.tailOff = (ofPieces p).pathOff)
    (buf : Bytes) :
    ((r.fields.text buf .UF_PATH).getD [] = (ofPieces p).getPath ↔
    Found buf (ofPieces p).pathOff (ofPieces p).getPath) ∧
    ((r.fields.text buf .UF_QUERY).getD [] = (ofPieces p).m_query ↔
      Found buf (ofPieces p).queryOff (ofPieces p).m_query) ∧
    ((r.fields.text buf .UF_FRAGMENT).getD [] = (ofPieces p).m_fragment ↔
      Found buf (ofPieces p).fragmentOff (ofPieces p).m_fragment) := by
  obtain ⟨hfragment, hbare⟩ := fragment_printed p
  have hpath := getD_text_iff (UrlPieces.field_path (p := r)) buf
  have hquery := getD_text_iff (UrlPieces.field_query (p := r)) buf
  have hfrag := getD_text_iff (UrlPieces.field_fragment (p := r)) buf
  have hbareOff : r.bareOff = (ofPieces p).fragmentOff := by
    rw [← bareOff_printed, UrlPieces.bareOff, UrlPieces.bareOff, htail, hoff, tailOff_printed]
  rw [htail, hoff] at hpath
  rw [htail, hoff, query_printed, ← tailOff_printed, queryOff_printed] at hquery
  rw [htail, hbareOff, hfragment, hbare] at hfrag
  exact ⟨hpath, hquery, hfrag⟩

/-- The query and the fragment are parts of the URL. -/
theorem length_parts_lt (hlen : p.text.length < 2 ^ 16) :
    (ofPieces p).m_query.length < 2 ^ 16 ∧ (ofPieces p).m_fragment.length < 2 ^ 16 := by
  have hlens := UrlPieces.length_text (p := p)
  rw [Tail.text, List.length_append, List.length_append] at hlens
  constructor
  · have hm : (ofPieces p).m_query = p.tail.query.getD [] := rfl
    rw [hm]
    cases hq : p.tail.query with
    | none => decide
    | some q =>
      have hlen : p.tail.queryText.length = q.length + 1 := by simp [Tail.queryText, hq]
      rw [Option.getD_some]
      omega
  · have hm : (ofPieces p).m_fragment = bareFragment (p.tail.fragment.getD []) := rfl
    rw [hm]
    cases hf : p.tail.fragment with
    | none => decide
    | some f =>
      have hlen : p.tail.fragmentText.length = f.length + 1 := by simp [Tail.fragmentText, hf]
      have hbare : (bareFragment f).length ≤ f.length := (List.dropWhile_suffix _).length_le
      rw [Option.getD_some]
      omega

section

variable (hv : p.Valid) (hport : PortFits p) (hlen : p.text.length < 2 ^ 16)

include hv hport hlen

/-- When the query is found in what is printed. -/
theorem found_query_printed : Found (ofPieces p).printed.text (ofPieces p).queryOff (ofPieces p).m_query ↔
    InReach p.text (ofPieces p).queryOff (ofPieces p).m_query := by
  have hle := length_printed hv hport
  rw [length_text_printed] at hle
  have hpart := (length_parts_lt hlen).1
  refine found_iff_inReach UrlPieces.text_eq UrlPieces.text_eq
    (by rw [UrlPieces.length_before, UrlPieces.authorityOff]; omega)
    (fun hne => ?_) hpart (fun hoff => ?_)
  · rw [if_neg (by simpa using hne)] at hle
    rw [queryOff]
    omega
  · have hfound := UrlPieces.found_query (p := (ofPieces p).printed) (by rw [queryOff_printed]; exact hoff)
      (by rw [query_printed]; exact hpart)
    rwa [queryOff_printed, query_printed] at hfound

/-- When the fragment is. -/
theorem found_fragment_printed : Found (ofPieces p).printed.text (ofPieces p).fragmentOff (ofPieces p).m_fragment ↔
    InReach p.text (ofPieces p).fragmentOff (ofPieces p).m_fragment := by
  obtain ⟨hfrag, hbare⟩ := fragment_printed p
  have hle := length_printed hv hport
  rw [length_text_printed] at hle
  have hpart := (length_parts_lt hlen).2
  refine found_iff_inReach UrlPieces.text_eq UrlPieces.text_eq
    (by rw [UrlPieces.length_before, UrlPieces.authorityOff]; omega)
    (fun hne => ?_) hpart (fun hoff => ?_)
  · rw [@if_neg ((ofPieces p).m_fragment.isEmpty = true) _ (by simpa using hne)] at hle
    rw [fragmentOff]
    omega
  · have hfound := UrlPieces.found_fragment (p := (ofPieces p).printed) (by rw [bareOff_printed]; exact hoff)
      (by rw [hfrag, hbare]; exact hpart)
    rwa [bareOff_printed, hfrag, hbare] at hfound

end

/-! ### What is read back -/

/-- **A path that begins beyond 16 bits is lost**: what stands at its offset is a
character of the scheme, or the colon behind it. -/
theorem head_getPath_of_beyond {uri' : URI} (hv : p.Valid) (hoff : p.authorityOff < 2 ^ 16)
    (hlen : p.authority.text.length < 2 ^ 16) (hbeyond : 2 ^ 16 ≤ p.tailOff) (hnear : p.tailOff ≤ 2 ^ 16 + 1)
    (hne : p.tail.path ≠ []) (hpath : p.tail.path.length < 2 ^ 16) (h : Create p.text = .ok (some uri')) :
    uri'.getPath.head? ≠ some (chr '/') := by
  -- the two characters that the text begins with
  have hbegin : ∀ k ≤ 1, ∃ c rest, p.text.drop k = c :: rest ∧ c ≠ chr '/' := by
    have halpha : ∀ c, isAlpha c = true → c ≠ chr '/' := forall_byte (by decide +kernel)
    obtain ⟨c, s, hs⟩ := List.exists_cons_of_ne_nil hv.scheme_ne
    have hall := hv.scheme
    rw [hs] at hall
    obtain ⟨hc, hall⟩ := List.forall_mem_cons.mp hall
    intro k hk
    rw [UrlPieces.text, splitText, hs]
    rcases Nat.le_one_iff_eq_zero_or_eq_one.mp hk with rfl | rfl
    · exact ⟨c, _, rfl, halpha c hc⟩
    · cases s with
      | nil => exact ⟨chr ':', _, rfl, by decide⟩
      | cons d s => exact ⟨d, _, rfl, halpha d (hall d List.mem_cons_self)⟩
  obtain ⟨v, hparse⟩ := exists_parse h
  have hread := hparse
  rw [UrlPieces.parse_url_text hv hoff hlen] at hread
  have hfield : v.field .UF_PATH = some (p.tailOff % 2 ^ 16, p.tail.path.length % 2 ^ 16) := by
    rw [field_of_readPort hread, UrlPieces.field_path, pieceField, if_neg (by simpa using hne)]
  obtain ⟨c, rest, hdrop, hc⟩ := hbegin (p.tailOff % 2 ^ 16) (by omega)
  obtain ⟨n, hn⟩ := Nat.exists_eq_succ_of_ne_zero (List.length_pos_iff.mpr hne).ne'
  have htext : uri'.m_path = c :: rest.take n := by
    rw [(create_tail hparse h).2, HttpParserUrl.text, hfield, Option.map_some, Option.getD_some]
    dsimp only
    rw [hdrop, Nat.mod_eq_of_lt hpath, hn, List.take_succ_cons]
  rw [getPath, htext, List.isEmpty_cons, if_neg Bool.false_ne_true, List.head?_cons]
  exact fun heq => hc (Option.some.inj heq)

/-- Of a URL that stays three bytes below the limit everything printed is in reach. -/
theorem survives_iff_of_length_le (hv : p.Valid) (hport : PortFits p) (hlen : p.text.length ≤ 65532) :
    Survives p ↔ chr ':' ∉ p.authority.host ∧ chr '%' ∉ p.authority.host := by
  refine ⟨fun h => ⟨h.colon, h.zone⟩, fun ⟨hcolon, hzone⟩ => ⟨hcolon, hzone, ?_, ?_, ?_⟩⟩
  all_goals
    have hle := length_printed hv hport
    rw [length_text_printed] at hle
  · omega
  · by_cases hne : (ofPieces p).m_query = []
    · rw [hne]
      exact .inr List.nil_prefix
    · rw [if_neg (by simpa using hne)] at hle
      exact .inl (by rw [queryOff]; omega)
  · by_cases hne : (ofPieces p).m_fragment = []
    · rw [hne]
      exact .inr List.nil_prefix
    · rw [@if_neg ((ofPieces p).m_fragment.isEmpty = true) _ (by simpa using hne)] at hle
      exact .inl (by rw [fragmentOff]; omega)

section

variable (hv : p.Valid) (hport : PortFits p) (hlen : p.text.length < 2 ^ 16)

include hv hport hlen

/-- The offsets and lengths of a printed authority and a printed path. -/
theorem printed_bounds : (ofPieces p).printed.authorityOff < 2 ^ 16 ∧
    (ofPieces p).printed.authority.text.length < 2 ^ 16 ∧ (ofPieces p).pathOff ≤ 2 ^ 16 + 1 ∧
    (ofPieces p).getPath.length < 2 ^ 16 := by
  have hauth := length_authority_le hv hport
  have hlens := UrlPieces.length_text (p := p)
  have hoff : (ofPieces p).printed.authorityOff = p.scheme.length + 3 := rfl
  have htail : (ofPieces p).printed.tailOff = p.scheme.length + 3 + (ofPieces p).printed.authority.text.length := rfl
  have hscheme : 0 < p.scheme.length := List.length_pos_iff.mpr hv.scheme_ne
  have hpath := length_getPath_le p
  rw [UrlPieces.tailOff, UrlPieces.authorityOff, Tail.text, List.length_append] at hlens
  rw [← tailOff_printed, htail, hoff]
  refine ⟨by omega, by omega, by omega, by omega⟩

/-- **What is read back survives.** -/
theorem survives_of_readsBack (h : ReadsBack (ofPieces p)) : Survives p := by
  obtain ⟨uri', hcreate, hsame⟩ := h
  obtain ⟨hoff, hauth, hnear, hpathLen⟩ := printed_bounds hv hport hlen
  rw [← text_printed] at hcreate
  -- the authority as it is read
  have hsplit := (inUrl_printed hv).isSplit hv.scheme_ne hv.scheme (tail_printed hv)
  obtain ⟨v, hparse⟩ := exists_parse hcreate
  obtain ⟨a, ha, htext⟩ := exists_authority_of_parse hsplit hoff hauth hparse
  obtain ⟨r, hr⟩ : ∃ r : UrlPieces, r = { (ofPieces p).printed with authority := a } := ⟨_, rfl⟩
  have hrv : r.Valid := by
    rw [hr]
    exact ⟨hv.scheme_ne, hv.scheme, ha, tail_printed hv⟩
  have hrtext : r.text = (ofPieces p).printed.text := by rw [hr, UrlPieces.text, UrlPieces.text, htext]
  have hrtail : r.tail = (ofPieces p).printed.tail := by rw [hr]
  have hrauth : r.authority.text = (ofPieces p).printed.authority.text := by rw [hr, htext]
  have hroff : r.authorityOff = (ofPieces p).printed.authorityOff := by rw [hr]; rfl
  have hrtailOff : r.tailOff = (ofPieces p).pathOff := by
    rw [← tailOff_printed, UrlPieces.tailOff, UrlPieces.tailOff, hroff, hrauth]
  rw [← hrtext] at hcreate
  have hpath : (ofPieces p).pathOff < 2 ^ 16 := by
    refine Nat.lt_of_not_le fun hbeyond => ?_
    have hslash := head_getPath hv
    have hne : r.tail.path ≠ [] := by
      intro hnil
      rw [hrtail] at hnil
      have hgp : (ofPieces p).getPath = [] := hnil
      rw [hgp] at hslash
      cases hslash
    refine head_getPath_of_beyond hrv (hroff ▸ hoff) (hrauth ▸ hauth) (hrtailOff ▸ hbeyond) (hrtailOff ▸ hnear) hne ?_
      hcreate (hsame.path ▸ hslash)
    rw [hrtail]
    exact hpathLen
  have hrfit := portFits_of_create hrv (hrtailOff ▸ hpath) hcreate
  rw [create_text hrv (hrtailOff ▸ hpath) hrfit] at hcreate
  have huri' := Option.some.inj (Except.ok.inj hcreate)
  -- a host that is read without brackets has neither a colon nor a zone
  have hhost : a.host = p.authority.host := by
    have heq := hsame.host
    rw [← huri', hr] at heq
    exact heq
  have hnb : a.bracketed = false := by
    rw [← Bool.not_eq_true]
    intro hb
    have hmem : chr '[' ∈ a.text := by simp [Authority.text, Authority.hostText, hb]
    rw [← htext] at hmem
    exact (inUrl_printed hv).bracket_notMem rfl hmem
  have hchars := ha.host
  rw [hnb, if_neg Bool.false_ne_true, hhost] at hchars
  refine ⟨fun hmem => ?_, fun hmem => ?_, hpath, ?_, ?_⟩
  · exact ((isUserinfoChar_of _).2.1 (hchars.2 _ hmem)).2.1 rfl
  · exact ((isUserinfoChar_of _).2.1 (hchars.2 _ hmem)).2.2 rfl
  · rw [← found_query_printed hv hport hlen, ← hrtext, ← (text_tail_iff hrtail hrtailOff r.text).2.1, ← hsame.query,
      ← huri']
  · rw [← found_fragment_printed hv hport hlen, ← hrtext, ← (text_tail_iff hrtail hrtailOff r.text).2.2,
      ← hsame.fragment, ← huri']

/-- **What survives is read back.** -/
theorem readsBack_of_survives (h : Survives p) : ReadsBack (ofPieces p) := by
  have hvalid := valid_printed hv h.colon h.zone
  obtain ⟨-, -, -, hpathLen⟩ := printed_bounds hv hport hlen
  have htail : (ofPieces p).printed.tailOff < 2 ^ 16 := by
    rw [tailOff_printed]
    exact h.path
  obtain ⟨hpath, hquery, hfragment⟩ := text_tail_iff (p := p) rfl (tailOff_printed _) (ofPieces p).printed.text
  have hfoundPath : Found (ofPieces p).printed.text (ofPieces p).pathOff (ofPieces p).getPath := by
    rw [← tailOff_printed]
    exact UrlPieces.found_path htail hpathLen
  have hpath' := hpath.mpr hfoundPath
  have hquery' := hquery.mpr ((found_query_printed hv hport hlen).mpr h.query)
  have hfragment' := hfragment.mpr ((found_fragment_printed hv hport hlen).mpr h.fragment)
  have hcreate := create_text hvalid htail (portFits_printed _)
  rw [hpath', hquery', hfragment'] at hcreate
  rw [ReadsBack, ← text_printed]
  refine ⟨_, hcreate, rfl, ?_, rfl, getPort_printed rfl rfl, ?_, rfl, rfl⟩
  · show (ofPieces p).printed.authority.userinfo.getD [] = (ofPieces p).m_userinfo
    rw [printed]
    cases (ofPieces p).m_userinfo <;> rfl
  · have hne : (ofPieces p).getPath.isEmpty = false := by
      have hslash := head_getPath hv
      cases hp : (ofPieces p).getPath with
      | nil =>
        rw [hp] at hslash
        cases hslash
      | cons ch bs => rfl
    rw [getPath, hne, if_neg Bool.false_ne_true]

end

/-- **The URLs that are read back from the printed text**: of those of at most 65535
bytes with a scheme and a host, the ones whose pieces survive. -/
theorem toString_readsBack_iff {u : Bytes} {uri : URI} (hlen : u.length ≤ 65535) (h : Create u = .ok (some uri))
    (hscheme : uri.m_scheme ≠ []) (_hhost : uri.m_host ≠ []) :
    ReadsBack uri ↔ ∃ p : UrlPieces, p.Valid ∧ u = p.text ∧ Survives p := by
  have hlt : u.length < 2 ^ 16 := by omega
  -- the URI is that of any pieces of the URL
  have hpieces : ∀ p : UrlPieces, p.Valid → u = p.text → PortFits p ∧ uri = ofPieces p := by
    rintro p hv rfl
    have htext := UrlPieces.length_text (p := p)
    have hport := portFits_of_create hv (by omega) h
    rw [create_ofPieces hv hlt hport] at h
    exact ⟨hport, (Option.some.inj (Except.ok.inj h)).symm⟩
  constructor
  · intro hread
    obtain ⟨v, hparse⟩ := exists_parse h
    have hfield : v.field .UF_SCHEMA ≠ none := by
      intro hnone
      rw [(create_tail hparse h).1, HttpParserUrl.text, hnone] at hscheme
      exact hscheme rfl
    obtain ⟨p, hv, hu⟩ := exists_pieces hparse hfield hlt
    obtain ⟨hport, huri⟩ := hpieces p hv hu
    rw [huri] at hread
    exact ⟨p, hv, hu, survives_of_readsBack hv hport (hu ▸ hlt) hread⟩
  · rintro ⟨p, hv, hu, hsurvives⟩
    obtain ⟨hport, huri⟩ := hpieces p hv hu
    rw [huri]
    exact readsBack_of_survives hv hport (hu ▸ hlt) hsurvives

/-- A URL with all parts. -/
def searchUri : URI := ⟨str "http", str "me", str "wu.org", str "/s", str "q=a/b", str "top", 8080⟩

/-- The statement at a URI with all its parts. -/
theorem toString_readsBack_search : ReadsBack searchUri := by
  have hcreate : Create (str "http://me@wu.org:8080/s?q=a/b#top") = .ok (some searchUri) := by decide
  refine (toString_readsBack_iff (by decide +kernel) hcreate (by decide +kernel) (by decide)).mpr
    ⟨⟨str "http", ⟨some (str "me"), false, str "wu.org", some (str "8080")⟩,
      ⟨str "/s", some (str "q=a/b"), some (str "top")⟩⟩, ?_, by decide +kernel, ?_⟩
  · refine ⟨by decide, by decide +kernel, ⟨fun x hx => ?_, ⟨by decide, by decide +kernel⟩,
      fun d hd => ?_⟩, ⟨.inr (by decide), by decide +kernel, fun q hq => ?_, fun f hf => ?_, nofun⟩⟩
    · obtain rfl := Option.some.inj hx
      decide +kernel
    · obtain rfl := Option.some.inj hd
      exact ⟨nofun, by decide +kernel⟩
    · obtain rfl := Option.some.inj hq
      decide +kernel
    · obtain rfl := Option.some.inj hf
      decide +kernel
  · exact ⟨by decide, by decide, by decide, .inl (by decide), .inl (by decide)⟩

/-- The brackets of an IPv6 address are lost. -/
theorem not_forall_readsBack : ¬∀ (u : Bytes) (uri : URI), u.length ≤ 65535 → Create u = .ok (some uri) →
    uri.m_scheme ≠ [] → uri.m_host ≠ [] → ReadsBack uri := by
  intro h
  have hcreate : Create (str "http://[::1]/") = .ok (some ⟨str "http", [], str "::1", str "/", [], [], 80⟩) := by
    decide
  have hnull : Create (toString ⟨str "http", [], str "::1", str "/", [], [], 80⟩) = .ok none := by decide
  obtain ⟨uri', hread, -⟩ := h _ _ (by decide) hcreate (by decide) (by decide)
  rw [hnull] at hread
  cases hread

end URI

end Net
end Wuchat
