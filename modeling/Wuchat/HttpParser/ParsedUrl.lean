/-
# The vendored HTTP parser: URLs with a scheme

`http_parser_parse_url` on `scheme://user@host:port/path?query#fragment`.  Of the
URLs of less than `2^16` bytes in which it finds a scheme each is put together in
this way (`exists_pieces`), and of one that is, however long, the fields are
those of the pieces (`parse_url_text`).  Offsets and lengths are `uint16_t`, so a
piece is found again where its offset and its length fit (`Found`).
-/

import Wuchat.HttpParser.UrlGrammar

namespace Wuchat
namespace HttpParsing

open Foundation Http

/-! ### After the outer loop -/

/-- The number of the port, if there is one. -/
def readPort (buf : Bytes) (u : HttpParserUrl) : Option HttpParserUrl :=
  match u.field .UF_PORT with
  | none => some u
  | some (off, len) => (portLoop 0 ((buf.drop off).take len)).map fun v => { u with port := v }

section

variable {buf : Bytes} {u v w : HttpParserUrl} {a : Bool}

/-- A host that the loop found is taken apart, and the port is read. -/
theorem parse_url_eq (hloop : urlLoop .s_req_spaces_before_url none false ⟨0, fun _ => none⟩ 0 buf = some (u, a))
    (hhost : u.field .UF_HOST ≠ none) :
    http_parser_parse_url buf false = (http_parse_host buf u a).bind (readPort buf) := by
  have hne : buf ≠ [] := by
    rintro rfl
    obtain ⟨rfl, -⟩ := Prod.mk.inj (Option.some.inj hloop)
    exact hhost rfl
  have hsome : (u.field .UF_HOST).isSome = true := Option.isSome_iff_ne_none.mpr hhost
  rw [http_parser_parse_url, if_neg hne, if_neg Bool.false_ne_true]
  dsimp only
  rw [hloop]
  simp only [Option.bind_eq_bind, Option.bind_some, hsome, Option.isNone_iff_eq_none, hhost, and_false, if_false,
    if_true, Bool.false_eq_true, false_and]
  congr 1
  funext w
  rw [readPort]
  cases w.field .UF_PORT with
  | none => rfl
  | some p =>
    obtain ⟨off, len⟩ := p
    dsimp only
    cases portLoop 0 ((buf.drop off).take len) <;> rfl

/-- A URL in which a scheme is found has a host. -/
theorem parse_url_scheme (h : http_parser_parse_url buf false = some v) (hscheme : v.field .UF_SCHEMA ≠ none) :
    ∃ u a, urlLoop .s_req_spaces_before_url none false ⟨0, fun _ => none⟩ 0 buf = some (u, a) ∧
      u.field .UF_HOST ≠ none := by
  rw [http_parser_parse_url] at h
  split at h
  · cases h
  rw [if_neg Bool.false_ne_true] at h
  dsimp only at h
  cases hloop : urlLoop .s_req_spaces_before_url none false ⟨0, fun _ => none⟩ 0 buf with
  | none =>
    rw [hloop] at h
    cases h
  | some p =>
    refine ⟨p.1, p.2, rfl, fun hhost => ?_⟩
    rw [hloop] at h
    simp only [Option.bind_eq_bind, Option.bind_some, hhost, Option.isNone_none, and_true, Option.isSome_none,
      Bool.false_eq_true, if_false, false_and] at h
    split at h
    · cases h
    · rename_i hnone
      split at h
      · obtain rfl := Option.some.inj h
        exact hnone (Option.isSome_iff_ne_none.mpr hscheme)
      · obtain ⟨n, -, hv⟩ := Option.bind_eq_some_iff.mp h
        obtain rfl := Option.some.inj hv
        exact hnone (Option.isSome_iff_ne_none.mpr hscheme)

/-- The host of a URL is taken apart where the loop over it ends well. -/
theorem http_parse_host_eq_some {off len : Nat} (hfield : u.field .UF_HOST = some (off, len)) :
    http_parse_host buf u a = some v ↔
      ∃ st, HostEnd st ∧
        hostLoop (hostStart a) (u.set .UF_HOST off 0) off ((buf.drop off).take len) = some (st, v) := by
  rw [http_parse_host, hfield, Option.bind_eq_bind, Option.bind_some]
  constructor
  · intro h
    obtain ⟨⟨st, w⟩, hloop, hst⟩ := Option.bind_eq_some_iff.mp h
    obtain ⟨-, hdead⟩ := hostLoop_state (hostStart_ne_dead a) hloop
    refine ⟨st, ?_, ?_⟩
    · cases st <;> first
        | exact .inl rfl
        | exact .inr (.inl rfl)
        | exact .inr (.inr rfl)
        | exact absurd rfl hdead
        | cases hst
    · have hw : w = v := by cases st <;> first | exact Option.some.inj hst | cases hst
      rw [← hw]
      exact hloop
  · rintro ⟨st, hst, hloop⟩
    refine Option.bind_eq_some_iff.mpr ⟨(st, v), hloop, ?_⟩
    rcases hst with rfl | rfl | rfl <;> rfl

/-- The loop over an authority leaves the other fields. -/
theorem hostLoop_field {st e : HostState} {i : Nat} {bs : Bytes} (h : hostLoop st u i bs = some (e, v)) {uf : UrlField}
    (huf : uf ≠ .UF_HOST ∧ uf ≠ .UF_PORT ∧ uf ≠ .UF_USERINFO) : v.field uf = u.field uf := by
  induction bs generalizing st u i with
  | nil =>
    obtain ⟨-, rfl⟩ := Prod.mk.inj (Option.some.inj h)
    rfl
  | cons ch bs ih =>
    rw [hostLoop] at h
    split at h
    · cases h
    · rw [ih h]
      generalize http_parse_host_char st ch = st'
      cases st' <;> simp only [hostField, HttpParserUrl.grow] <;> (try split) <;>
        simp [HttpParserUrl.field_set_of_ne, huf]

/-- **A URL with a scheme and a host splits.** -/
theorem exists_split (hloop : urlLoop .s_req_spaces_before_url none false ⟨0, fun _ => none⟩ 0 buf = some (u, a))
    (hscheme : u.field .UF_SCHEMA ≠ none) (hhost : u.field .UF_HOST ≠ none) :
    ∃ scheme auth t, IsSplit scheme auth t ∧ buf = splitText scheme auth t := by
  have halive := urlLoop_alive (by decide) hloop
  rcases buf with _ | ⟨ch, bs⟩
  · obtain ⟨rfl, -⟩ := Prod.mk.inj (Option.some.inj hloop)
    exact absurd rfl hhost
  have hstep := step_ne_of_foldl_ne parse_url_char_dead halive
  rcases (parse_url_char_ne_dead ch).1 hstep with hch | hpath
  · have hstay : ∀ c, isAlpha c = true → parse_url_char .s_req_schema c = .s_req_schema :=
      fun c hc => ((parse_url_char_authority c).1 hc).2
    obtain ⟨s, b, rfl, hs, hb, hrun⟩ := exists_stay hstay bs
    have hchars : ∀ c ∈ ch :: s, isAlpha c = true := List.forall_mem_cons.mpr ⟨hch, hs⟩
    rw [List.foldl_cons, ((parse_url_char_authority ch).1 hch).1, hrun] at halive
    rw [← List.cons_append, urlLoop_scheme (List.cons_ne_nil _ _) hchars] at hloop
    -- where the URL ends before the authority, no host is set
    have hunset : ∀ st, urlLoop st (some .UF_SCHEMA) false
        ((⟨0, fun _ => none⟩ : HttpParserUrl).set .UF_SCHEMA 0 (ch :: s).length) (ch :: s).length [] ≠ some (u, a) := by
      intro st h
      obtain ⟨rfl, -⟩ := Prod.mk.inj (Option.some.inj h)
      exact hhost rfl
    rcases hb with rfl | ⟨c, r, rfl, hc⟩
    · exact absurd hloop (hunset _)
    have hcolon := (parse_url_char_ne_dead c).2.1 (step_ne_of_foldl_ne parse_url_char_dead halive)
    rw [hc] at hcolon
    obtain rfl := hcolon.resolve_left Bool.false_ne_true
    have h₁ : parse_url_char .s_req_schema (chr ':') = .s_req_schema_slash := by decide
    rw [List.foldl_cons, h₁] at halive
    rw [urlLoop_mark .s_req_schema_slash h₁ rfl (by decide)] at hloop
    rcases r with _ | ⟨c, r⟩
    · obtain ⟨rfl, -⟩ := Prod.mk.inj (Option.some.inj hloop)
      exact absurd rfl hhost
    obtain rfl := (parse_url_char_ne_dead c).2.2.1 (step_ne_of_foldl_ne parse_url_char_dead halive)
    have h₂ : parse_url_char .s_req_schema_slash (chr '/') = .s_req_schema_slash_slash := by decide
    rw [List.foldl_cons, h₂] at halive
    rw [urlLoop_mark .s_req_schema_slash_slash h₂ rfl (by decide)] at hloop
    rcases r with _ | ⟨c, r⟩
    · obtain ⟨rfl, -⟩ := Prod.mk.inj (Option.some.inj hloop)
      exact absurd rfl hhost
    obtain rfl := (parse_url_char_ne_dead c).2.2.2.1 (step_ne_of_foldl_ne parse_url_char_dead halive)
    rw [urlLoop_mark .s_req_server_start (by decide) rfl (by decide)] at hloop
    obtain ⟨auth, t, hne, hauth, hauthAlive, ht, rfl⟩ := exists_authorityText hloop rfl hhost
    exact ⟨ch :: s, auth, t, ⟨List.cons_ne_nil _ _, hchars, hne, hauth, hauthAlive, ht⟩, rfl⟩
  · -- a path has no scheme before it
    rw [urlLoop_cons, if_neg hstep, hpath] at hloop
    dsimp only [urlField] at hloop
    rw [if_neg (by decide)] at hloop
    exact absurd (urlLoop_late (by decide) hloop (.inl rfl)) hscheme

end

/-! ### The characters of an authority -/

/-- The characters of a userinfo, and of what the pieces of an authority have in it. -/
theorem isUserinfoChar_of (ch : UInt8) :
    (isUserinfoChar ch = true → isServerChar ch = true ∧ ch ≠ chr '@' ∧ ch ≠ chr '[') ∧
    (isHostChar ch = true → isUserinfoChar ch = true ∧ ch ≠ chr ':' ∧ ch ≠ chr '%') ∧
    (isNum ch = true → isUserinfoChar ch = true) ∧
    (isV6Char ch = true → isUserinfoChar ch = true ∧ (ch = chr ':' ∨ isHostChar ch = true)) ∧
    (isZoneChar ch = true → isUserinfoChar ch = true) := by
  revert ch
  exact forall_byte (by decide +kernel)

/-- Characters of an authority but no `@`. -/
def IsPlainServer (bs : Bytes) : Prop := ∀ ch ∈ bs, isServerChar ch = true ∧ ch ≠ chr '@'

/-- Two plain pieces of a server are one. -/
theorem IsPlainServer.append {x y : Bytes} (hx : IsPlainServer x) (hy : IsPlainServer y) : IsPlainServer (x ++ y) :=
  fun ch hch => (List.mem_append.mp hch).elim (hx ch) (hy ch)

/-- The characters of a user are plain. -/
theorem isPlainServer_of_userinfo {x : Bytes} (h : ∀ ch ∈ x, isUserinfoChar ch = true) : IsPlainServer x :=
  fun ch hch => ⟨((isUserinfoChar_of ch).1 (h ch hch)).1, ((isUserinfoChar_of ch).1 (h ch hch)).2.1⟩

/-- Where such characters leave the outer loop. -/
theorem IsPlainServer.foldl {x : Bytes} (h : IsPlainServer x) {st : State}
    (hst : st = .s_req_server_start ∨ InServer st) :
    x.foldl parse_url_char st = st ∧ x = [] ∨ x.foldl parse_url_char st = .s_req_server := by
  have hstep : ∀ st ch, (st = .s_req_server_start ∨ InServer st) → isServerChar ch = true → ch ≠ chr '@' →
      parse_url_char st ch = .s_req_server := by
    rintro st ch (rfl | rfl | rfl) hch hat
    · exact ((parse_url_char_authority ch).2 hch hat).1
    · exact ((parse_url_char_authority ch).2 hch hat).2.1
    · exact ((parse_url_char_authority ch).2 hch hat).2.2
  induction x generalizing st with
  | nil => exact .inl ⟨rfl, rfl⟩
  | cons ch x ih =>
    obtain ⟨⟨hch, hat⟩, hx⟩ := List.forall_mem_cons.mp h
    rw [List.foldl_cons, hstep st ch hst hch hat]
    exact .inr ((ih hx (.inr (.inl rfl))).elim And.left id)

namespace Authority

/-- **An authority as the outer loop takes it.**  It lets a host have characters that
`http_parse_host` does not. -/
structure InUrl (a : Authority) : Prop where
  userinfo : ∀ x, a.userinfo = some x → ∀ ch ∈ x, isUserinfoChar ch = true
  host_ne : a.host ≠ []
  host : ∀ ch ∈ a.host, isUserinfoChar ch = true
  port : ∀ d, a.port = some d → d ≠ [] ∧ ∀ ch ∈ d, isNum ch = true

variable {a : Authority}

/-- A valid authority is one of a URL. -/
theorem Valid.inUrl (h : a.Valid) : a.InUrl := by
  refine ⟨h.userinfo, ?_, ?_, h.port⟩
  · have hhost := h.host
    split at hhost
    · obtain ⟨addr, zone, hz, hne, -, -⟩ := hhost
      rw [hz]
      exact List.append_ne_nil_of_left_ne_nil hne _
    · exact hhost.1
  · have hhost := h.host
    split at hhost
    · obtain ⟨addr, zone, hz, -, haddr, hzone⟩ := hhost
      intro ch hch
      rw [hz] at hch
      rcases List.mem_append.mp hch with hch | hch
      · exact ((isUserinfoChar_of ch).2.2.2.1 (haddr ch hch)).1
      · rcases hzone with rfl | ⟨bs, rfl, -, hbs⟩
        · cases hch
        · rcases List.mem_cons.mp hch with rfl | hch
          · decide
          · exact (isUserinfoChar_of ch).2.2.2.2 (hbs ch hch)
    · exact fun ch hch => ((isUserinfoChar_of ch).2.1 (hhost.2 ch hch)).1

/-- The host and the port. -/
theorem InUrl.hostPort (h : a.InUrl) : IsPlainServer (a.hostText ++ a.portText) := by
  refine .append ?_ ?_
  · rw [hostText]
    split
    · intro ch hch
      rcases List.mem_append.mp hch with hch | hch
      · rcases List.mem_cons.mp hch with rfl | hch
        · decide
        · exact isPlainServer_of_userinfo h.host ch hch
      · obtain rfl := List.mem_singleton.mp hch
        decide
    · exact isPlainServer_of_userinfo h.host
  · rw [portText]
    cases hp : a.port with
    | none => exact List.forall_mem_nil _
    | some d =>
      intro ch hch
      rcases List.mem_cons.mp hch with rfl | hch
      · decide
      · exact isPlainServer_of_userinfo (fun c hc => (isUserinfoChar_of c).2.2.1 ((h.port d hp).2 c hc)) ch hch

/-- Without brackets around its host it has none. -/
theorem InUrl.bracket_notMem (h : a.InUrl) (hb : a.bracketed = false) : chr '[' ∉ a.text := by
  have hchars : ∀ x : Bytes, (∀ ch ∈ x, isUserinfoChar ch = true) → chr '[' ∉ x := fun x hx hmem =>
    ((isUserinfoChar_of _).1 (hx _ hmem)).2.2 rfl
  rw [text, List.mem_append, List.mem_append]
  rintro (hmem | hmem | hmem)
  · rw [userinfoText] at hmem
    cases hx : a.userinfo with
    | none =>
      rw [hx] at hmem
      cases hmem
    | some x =>
      rw [hx] at hmem
      rcases List.mem_append.mp hmem with hmem | hmem
      · exact hchars x (h.userinfo x hx) hmem
      · exact absurd (List.mem_singleton.mp hmem) (by decide)
  · rw [hostText, hb, if_neg Bool.false_ne_true] at hmem
    exact hchars _ h.host hmem
  · rw [portText] at hmem
    cases hp : a.port with
    | none =>
      rw [hp] at hmem
      cases hmem
    | some d =>
      rw [hp] at hmem
      rcases List.mem_cons.mp hmem with heq | hmem
      · exact absurd heq (by decide)
      · exact hchars d (fun c hc => (isUserinfoChar_of c).2.2.1 ((h.port d hp).2 c hc)) hmem

/-- The authority of a URL is not empty. -/
theorem InUrl.text_ne (h : a.InUrl) : a.text ≠ [] := by
  refine List.append_ne_nil_of_right_ne_nil _ (List.append_ne_nil_of_left_ne_nil ?_ _)
  rw [hostText]
  split
  · exact List.cons_ne_nil _ _
  · exact h.host_ne

/-- **The outer loop takes it**, and finds an `@` behind a userinfo. -/
theorem InUrl.alive (h : a.InUrl) : (∀ ch ∈ a.text, isServerChar ch = true) ∧
    a.text.foldl parse_url_char .s_req_server_start ≠ .s_dead ∧ a.text.contains (chr '@') = a.userinfo.isSome := by
  have hrest := h.hostPort
  have hnone : (a.hostText ++ a.portText).contains (chr '@') = false := by
    rw [← Bool.not_eq_true, List.contains_iff_mem]
    exact fun hat => (hrest _ hat).2 rfl
  have hend : ∀ st, (st = .s_req_server_start ∨ InServer st) →
      (a.hostText ++ a.portText).foldl parse_url_char st ≠ .s_dead := by
    intro st hst hd
    rcases hrest.foldl hst with ⟨heq, -⟩ | heq
    · rw [heq] at hd
      rcases hst with rfl | rfl | rfl <;> cases hd
    · rw [heq] at hd
      cases hd
  rw [text, userinfoText]
  cases hx : a.userinfo with
  | none => exact ⟨fun ch hch => (hrest ch hch).1, hend _ (.inl rfl), hnone⟩
  | some x =>
    have hplain := isPlainServer_of_userinfo (h.userinfo x hx)
    have hstep : ∀ st, st = .s_req_server_start ∨ st = .s_req_server →
        parse_url_char st (chr '@') = .s_req_server_with_at := by
      rintro st (rfl | rfl) <;> decide
    have hx' : x.foldl parse_url_char .s_req_server_start = .s_req_server_start ∨
        x.foldl parse_url_char .s_req_server_start = .s_req_server :=
      (hplain.foldl (.inl rfl)).imp_left And.left
    have htext : (Option.map (fun x => x ++ [chr '@']) (some x)).getD [] ++ (a.hostText ++ a.portText) =
        x ++ chr '@' :: (a.hostText ++ a.portText) := List.append_assoc x [chr '@'] _
    rw [htext]
    refine ⟨fun ch hch => ?_, ?_, ?_⟩
    · rcases List.mem_append.mp hch with hch | hch
      · exact (hplain ch hch).1
      · rcases List.mem_cons.mp hch with rfl | hch
        · decide
        · exact (hrest ch hch).1
    · rw [List.foldl_append, List.foldl_cons, hstep _ hx']
      exact hend _ (.inr (.inr rfl))
    · simp

end Authority

/-! ### A URL of pieces -/

/-- The pieces of a URL with a scheme. -/
structure UrlPieces where
  scheme : Bytes
  authority : Authority
  tail : Tail
  deriving DecidableEq, Repr

namespace UrlPieces

variable (p : UrlPieces)

/-- The URL's text. -/
def text : Bytes := splitText p.scheme p.authority.text p.tail

/-- The pieces have the characters that the two loops take. -/
structure Valid : Prop where
  scheme_ne : p.scheme ≠ []
  scheme : ∀ ch ∈ p.scheme, isAlpha ch = true
  authority : p.authority.Valid
  tail : p.tail.Valid

/-- The offset of the authority. -/
def authorityOff : Nat := p.scheme.length + 3

/-- The offset of what stands behind the authority. -/
def tailOff : Nat := p.authorityOff + p.authority.text.length

/-- The fields of the pieces, before the port is read. -/
def fields : HttpParserUrl :=
  p.authority.fields p.authorityOff ((splitFields p.scheme p.authority.text p.tail).set .UF_HOST p.authorityOff 0)

end UrlPieces

section

variable {scheme auth : Bytes} {t : Tail} {a : Authority}

/-- An authority that the outer loop takes splits a URL. -/
theorem Authority.InUrl.isSplit (h : a.InUrl) (hne : scheme ≠ []) (hscheme : ∀ ch ∈ scheme, isAlpha ch = true)
    (ht : t.Valid) : IsSplit scheme a.text t :=
  ⟨hne, hscheme, h.text_ne, h.alive.1, h.alive.2.1, ht⟩

/-- The fields that the path, the query and the fragment do not set. -/
theorem tail_field {off : Nat} {u : HttpParserUrl} {uf : UrlField}
    (huf : uf ≠ .UF_PATH ∧ uf ≠ .UF_QUERY ∧ uf ≠ .UF_FRAGMENT) : (t.fields off u).field uf = u.field uf := by
  unfold Tail.fields setFragment Tail.setQuery Tail.setPath
  repeat' split
  all_goals simp [HttpParserUrl.field_set_of_ne, huf]

/-- The fields that the authority does not set. -/
theorem authority_field {off : Nat} {u : HttpParserUrl} {uf : UrlField}
    (huf : uf ≠ .UF_HOST ∧ uf ≠ .UF_PORT ∧ uf ≠ .UF_USERINFO) : (a.fields off u).field uf = u.field uf := by
  unfold Authority.fields Authority.setPort Authority.setUserinfo
  repeat' split
  all_goals simp [HttpParserUrl.field_set_of_ne, huf]

/-- The field of the authority as a whole. -/
theorem splitFields_host (hoff : scheme.length + 3 < 2 ^ 16) (hlen : auth.length < 2 ^ 16) :
    (splitFields scheme auth t).field .UF_HOST = some (scheme.length + 3, auth.length) := by
  rw [splitFields, tail_field (by decide), HttpParserUrl.field_set_self, Nat.mod_eq_of_lt hoff, Nat.mod_eq_of_lt hlen]

/-- The authority's bytes in the text. -/
theorem drop_splitText : ((splitText scheme auth t).drop (scheme.length + 3)).take auth.length = auth := by
  have hpre : splitText scheme auth t = (scheme ++ str "://") ++ (auth ++ t.text) := by simp [splitText]
  have hlen : scheme.length + 3 = (scheme ++ str "://").length := by
    rw [List.length_append]
    rfl
  rw [hpre, hlen, List.drop_left, List.take_left]

/-- The authority of a URL that is taken. -/
theorem exists_authority_of_parse (h : IsSplit scheme auth t) (hoff : scheme.length + 3 < 2 ^ 16)
    (hlen : auth.length < 2 ^ 16) {v : HttpParserUrl}
    (hparse : http_parser_parse_url (splitText scheme auth t) false = some v) :
    ∃ a : Authority, a.Valid ∧ auth = a.text := by
  have hfield := splitFields_host (t := t) hoff hlen
  rw [parse_url_eq (urlLoop_url h) (by rw [hfield]; exact nofun)] at hparse
  obtain ⟨w, hhost, -⟩ := Option.bind_eq_some_iff.mp hparse
  obtain ⟨st, hst, hloop⟩ := (http_parse_host_eq_some hfield).mp hhost
  rw [drop_splitText] at hloop
  obtain ⟨hrun, -⟩ := hostLoop_state (hostStart_ne_dead _) hloop
  rw [← hrun] at hst
  obtain ⟨a, -, hv, ha⟩ := exists_authority hst
  exact ⟨a, hv, ha⟩

end

/-- **A URL in which a scheme is found is put together from pieces.** -/
theorem exists_pieces {buf : Bytes} {v : HttpParserUrl} (h : http_parser_parse_url buf false = some v)
    (hscheme : v.field .UF_SCHEMA ≠ none) (hlen : buf.length < 2 ^ 16) : ∃ p : UrlPieces, p.Valid ∧ buf = p.text := by
  obtain ⟨u, a, hloop, hhost⟩ := parse_url_scheme h hscheme
  have hu : u.field .UF_SCHEMA ≠ none := by
    rw [parse_url_eq hloop hhost] at h
    obtain ⟨w, hw, hport⟩ := Option.bind_eq_some_iff.mp h
    obtain ⟨⟨off, len⟩, hfield⟩ := Option.ne_none_iff_exists'.mp hhost
    obtain ⟨st, -, hhostLoop⟩ := (http_parse_host_eq_some hfield).mp hw
    have hwv : v.field = w.field := by
      rw [readPort] at hport
      split at hport
      · rw [Option.some.inj hport]
      · obtain ⟨n, -, rfl⟩ := Option.map_eq_some_iff.mp hport
        rfl
    rw [hwv, hostLoop_field hhostLoop (by decide), HttpParserUrl.field_set_of_ne (by decide)] at hscheme
    exact hscheme
  obtain ⟨scheme, auth, t, hsplit, rfl⟩ := exists_split hloop hu hhost
  have hlens : (splitText scheme auth t).length = scheme.length + 3 + auth.length + t.text.length := by
    rw [splitText]
    simp only [List.length_append]
    have hthree : (str "://").length = 3 := rfl
    omega
  obtain ⟨a, ha, rfl⟩ := exists_authority_of_parse hsplit (by omega) (by omega) h
  exact ⟨⟨scheme, a, t⟩, ⟨hsplit.scheme_ne, hsplit.scheme_chars, ha, hsplit.tail⟩, rfl⟩

namespace UrlPieces

variable {p : UrlPieces}

/-- A valid URL is split at its authority. -/
theorem Valid.isSplit (h : p.Valid) : IsSplit p.scheme p.authority.text p.tail :=
  h.authority.inUrl.isSplit h.scheme_ne h.scheme h.tail

/-- **What `http_parser_parse_url` makes of a URL of pieces.** -/
theorem parse_url_text (h : p.Valid) (hoff : p.authorityOff < 2 ^ 16) (hlen : p.authority.text.length < 2 ^ 16) :
    http_parser_parse_url p.text false = readPort p.text p.fields := by
  have hfield := splitFields_host (t := p.tail) hoff hlen
  have hhost : http_parse_host p.text (splitFields p.scheme p.authority.text p.tail)
      (p.authority.text.contains (chr '@')) = some p.fields := by
    rw [http_parse_host_eq_some hfield, text, drop_splitText, h.authority.inUrl.alive.2.2]
    exact Authority.hostLoop_text h.authority (by simp [hostField.hostLen])
  rw [text, parse_url_eq (urlLoop_url h.isSplit) (by rw [hfield]; exact nofun), ← text, hhost, Option.bind_some]

/-! ### The pieces are found -/

/-- The field of the scheme. -/
theorem field_scheme (h : p.Valid) : p.fields.field .UF_SCHEMA = pieceField 0 p.scheme := by
  rw [fields, authority_field (by decide), HttpParserUrl.field_set_of_ne (by decide), splitFields,
    tail_field (by decide),
    HttpParserUrl.field_set_of_ne (by decide), HttpParserUrl.field_set_self, pieceField,
    if_neg (by simpa using h.scheme_ne)]

/-- Before the authority only the scheme and the host are set. -/
theorem splitFields_unset (p : UrlPieces) {uf : UrlField} (huf : uf = .UF_USERINFO ∨ uf = .UF_PORT) :
    (splitFields p.scheme p.authority.text p.tail).field uf = none := by
  have hne : uf ≠ .UF_HOST ∧ uf ≠ .UF_SCHEMA ∧ uf ≠ .UF_PATH ∧ uf ≠ .UF_QUERY ∧ uf ≠ .UF_FRAGMENT := by
    rcases huf with rfl | rfl <;> decide
  rw [splitFields, tail_field hne.2.2, HttpParserUrl.field_set_of_ne hne.1, HttpParserUrl.field_set_of_ne hne.2.1]

/-- The field of the user. -/
theorem field_userinfo : p.fields.field .UF_USERINFO = pieceField p.authorityOff (p.authority.userinfo.getD []) := by
  have hunset := splitFields_unset p (.inl rfl)
  unfold fields Authority.fields Authority.setPort Authority.setUserinfo pieceField
  repeat' split
  all_goals simp [HttpParserUrl.field_set_of_ne, hunset]

/-- The field of the host, without its brackets. -/
theorem field_host (h : p.Valid) :
    p.fields.field .UF_HOST = pieceField (p.authority.hostOff p.authorityOff) p.authority.host := by
  rw [pieceField, if_neg (by simpa using h.authority.inUrl.host_ne), fields]
  unfold Authority.fields Authority.setPort
  split <;> simp [HttpParserUrl.field_set_of_ne]

/-- The field of the port, absent without one. -/
theorem field_port : p.fields.field .UF_PORT =
    p.authority.port.map fun d => (p.authority.portOff p.authorityOff % 2 ^ 16, d.length % 2 ^ 16) := by
  have hunset := splitFields_unset p (.inr rfl)
  unfold fields Authority.fields Authority.setPort Authority.setUserinfo
  cases p.authority.port with
  | none =>
    dsimp only
    rw [HttpParserUrl.field_set_of_ne (by decide)]
    split
    · rw [HttpParserUrl.field_set_of_ne (by decide), hunset]
      rfl
    · rw [HttpParserUrl.field_set_of_ne (by decide), HttpParserUrl.field_set_of_ne (by decide), hunset]
      rfl
  | some d => simp

/-- The field of the path. -/
theorem field_path : p.fields.field .UF_PATH = pieceField p.tailOff p.tail.path := by
  rw [fields, authority_field (by decide), HttpParserUrl.field_set_of_ne (by decide), pieceField, tailOff, authorityOff]
  unfold splitFields Tail.fields setFragment Tail.setQuery Tail.setPath
  repeat' split
  all_goals simp [HttpParserUrl.field_set_of_ne]

/-- The field of the query. -/
theorem field_query : p.fields.field .UF_QUERY = pieceField (p.tail.queryOff p.tailOff) (p.tail.query.getD []) := by
  rw [fields, authority_field (by decide), HttpParserUrl.field_set_of_ne (by decide), pieceField, tailOff, authorityOff]
  unfold splitFields Tail.fields setFragment Tail.setQuery Tail.setPath
  repeat' split
  all_goals simp [HttpParserUrl.field_set_of_ne]

/-- The offset of a fragment behind the `#`s it begins with. -/
def bareOff (p : UrlPieces) : Nat :=
  p.tail.fragmentOff p.tailOff + ((p.tail.fragment.getD []).length - (bareFragment (p.tail.fragment.getD [])).length)

/-- The field of the fragment, less the `#`s it begins with. -/
theorem field_fragment :
    p.fields.field .UF_FRAGMENT = pieceField p.bareOff (bareFragment (p.tail.fragment.getD [])) := by
  rw [fields, authority_field (by decide), HttpParserUrl.field_set_of_ne (by decide), pieceField, bareOff, tailOff,
    authorityOff]
  unfold splitFields Tail.fields setFragment Tail.setQuery Tail.setPath
  repeat' split
  all_goals simp [HttpParserUrl.field_set_of_ne]

/-- A part behind a known text. -/
theorem found_at {buf pre part post : Bytes} {off : Nat} (hbuf : buf = pre ++ (part ++ post)) (hpre : pre.length = off)
    (hoff : off < 2 ^ 16) (hlen : part.length < 2 ^ 16) : Found buf off part := by
  subst hbuf hpre
  exact found_of_lt hoff hlen post

/-- The length of an authority. -/
theorem length_authority (a : Authority) :
    a.text.length = a.userinfoText.length + (a.hostText.length + a.portText.length) := by
  rw [Authority.text, List.length_append, List.length_append]

/-- The length of a host with its brackets. -/
theorem length_hostText (a : Authority) : a.hostText.length = a.host.length + if a.bracketed then 2 else 0 := by
  rw [Authority.hostText]
  split <;> simp

/-- What stands before the authority. -/
theorem text_eq : p.text = (p.scheme ++ str "://") ++ (p.authority.text ++ p.tail.text) := by
  rw [text, splitText, List.append_assoc]

/-- The authority stands behind the scheme and `://`. -/
theorem length_before : (p.scheme ++ str "://").length = p.authorityOff := by
  rw [List.length_append]
  rfl

/-- The length of the URL up to its path, and behind it. -/
theorem length_text : p.text.length = p.tailOff + p.tail.text.length := by
  rw [text_eq, List.length_append, length_before, List.length_append, tailOff, Nat.add_assoc]

/-- The scheme is found at its field. -/
theorem found_scheme (h : p.tailOff < 2 ^ 16) : Found p.text 0 p.scheme := by
  rw [tailOff, authorityOff] at h
  have hbuf : p.text = [] ++ (p.scheme ++ (str "://" ++ (p.authority.text ++ p.tail.text))) := rfl
  exact found_at hbuf rfl (by decide) (by omega)

/-- The user is found at its field. -/
theorem found_userinfo (h : p.tailOff < 2 ^ 16) : Found p.text p.authorityOff (p.authority.userinfo.getD []) := by
  rw [tailOff, length_authority, Authority.userinfoText] at h
  cases hx : p.authority.userinfo with
  | none => exact found_nil _ _
  | some x =>
    have hbuf : p.text = (p.scheme ++ str "://") ++
        (x ++ ([chr '@'] ++ (p.authority.hostText ++ p.authority.portText ++ p.tail.text))) := by
      simp [text_eq, Authority.text, Authority.userinfoText, hx]
    have hlen : ((p.authority.userinfo.map fun x => x ++ [chr '@']).getD []).length = x.length + 1 := by simp [hx]
    rw [hlen] at h
    exact found_at hbuf length_before (by omega) (by rw [Option.getD_some]; omega)

/-- The host is found at its field. -/
theorem found_host (h : p.tailOff < 2 ^ 16) :
    Found p.text (p.authority.hostOff p.authorityOff) p.authority.host := by
  rw [tailOff, length_authority, length_hostText] at h
  rw [Authority.hostOff]
  cases hb : p.authority.bracketed with
  | false =>
    rw [hb, if_neg Bool.false_ne_true] at h
    rw [if_neg Bool.false_ne_true]
    have hbuf : p.text = (p.scheme ++ str "://" ++ p.authority.userinfoText) ++
        (p.authority.host ++ (p.authority.portText ++ p.tail.text)) := by
      simp [text_eq, Authority.text, Authority.hostText, hb]
    exact found_at hbuf (by rw [List.length_append, length_before]; rfl) (by omega) (by omega)
  | true =>
    rw [hb, if_pos rfl] at h
    rw [if_pos rfl]
    have hbuf : p.text = (p.scheme ++ str "://" ++ p.authority.userinfoText ++ [chr '[']) ++
        (p.authority.host ++ ([chr ']'] ++ (p.authority.portText ++ p.tail.text))) := by
      simp [text_eq, Authority.text, Authority.hostText, hb]
    exact found_at hbuf (by rw [List.length_append, List.length_append, length_before]; rfl) (by omega) (by omega)

/-- The port is found at its field. -/
theorem found_port (h : p.tailOff < 2 ^ 16) {d : Bytes} (hd : p.authority.port = some d) :
    Found p.text (p.authority.portOff p.authorityOff) d := by
  have hlen : p.authority.portText.length = d.length + 1 := by simp [Authority.portText, hd]
  have hbuf : p.text = (p.scheme ++ str "://" ++ p.authority.userinfoText ++ p.authority.hostText ++ [chr ':']) ++
      (d ++ p.tail.text) := by
    simp [text_eq, Authority.text, Authority.portText, hd]
  rw [tailOff, length_authority, hlen] at h
  have hpre : (p.scheme ++ str "://" ++ p.authority.userinfoText ++ p.authority.hostText ++ [chr ':']).length =
      p.authority.portOff p.authorityOff := by
    rw [List.length_append, List.length_append, List.length_append, length_before]
    rfl
  exact found_at hbuf hpre (by rw [Authority.portOff]; omega) (by omega)

/-- The path, the query and the fragment, wherever they begin. -/
theorem text_path : p.text = (p.scheme ++ str "://" ++ p.authority.text) ++
    (p.tail.path ++ (p.tail.queryText ++ p.tail.fragmentText)) := by
  simp [text_eq, Tail.text]

/-- The path stands behind the authority. -/
theorem length_before_tail : (p.scheme ++ str "://" ++ p.authority.text).length = p.tailOff := by
  rw [List.length_append, length_before]
  rfl

/-- The path is found at its field. -/
theorem found_path (h : p.tailOff < 2 ^ 16) (hlen : p.tail.path.length < 2 ^ 16) : Found p.text p.tailOff p.tail.path :=
  found_at text_path length_before_tail h hlen

/-- The query is found at its field. -/
theorem found_query (hoff : p.tail.queryOff p.tailOff < 2 ^ 16) (hlen : (p.tail.query.getD []).length < 2 ^ 16) :
    Found p.text (p.tail.queryOff p.tailOff) (p.tail.query.getD []) := by
  cases hq : p.tail.query with
  | none => exact found_nil _ _
  | some q =>
    have hbuf : p.text = (p.scheme ++ str "://" ++ p.authority.text ++ p.tail.path ++ [chr '?']) ++
        (q ++ p.tail.fragmentText) := by
      simp [text_path, Tail.queryText, hq]
    rw [hq] at hlen
    exact found_at hbuf (by rw [List.length_append, List.length_append, length_before_tail]; rfl) hoff hlen

/-- The fragment is found at its field. -/
theorem found_fragment (hoff : p.bareOff < 2 ^ 16)
    (hlen : (bareFragment (p.tail.fragment.getD [])).length < 2 ^ 16) :
    Found p.text p.bareOff (bareFragment (p.tail.fragment.getD [])) := by
  cases hf : p.tail.fragment with
  | none => exact found_nil _ _
  | some f =>
    -- the `#`s before it
    obtain ⟨hashes, hsplit⟩ := List.dropWhile_suffix (l := f) (· == chr '#')
    have hbuf : p.text = (p.scheme ++ str "://" ++ p.authority.text ++ p.tail.path ++ p.tail.queryText ++
        [chr '#'] ++ hashes) ++
        (bareFragment f ++ []) := by
      simp [text_path, Tail.fragmentText, hf, bareFragment, hsplit]
    have hhashes : f.length - (bareFragment f).length = hashes.length := by
      have hsum := congrArg List.length hsplit
      rw [List.length_append] at hsum
      rw [bareFragment]
      omega
    have hpre : (p.scheme ++ str "://" ++ p.authority.text ++ p.tail.path ++ p.tail.queryText ++
        [chr '#'] ++ hashes).length =
        p.bareOff := by
      rw [List.length_append, List.length_append, List.length_append, List.length_append, length_before_tail,
        bareOff, hf,
        Option.getD_some, hhashes]
      rfl
    rw [hf] at hlen
    exact found_at hbuf hpre hoff hlen

/-- **In a URL of less than `2^16` bytes each of them is found.** -/
theorem found_path_of_length (h : p.text.length < 2 ^ 16) : Found p.text p.tailOff p.tail.path := by
  rw [length_text, Tail.text, List.length_append] at h
  exact found_path (by omega) (by omega)

/-- The query is found in a URL whose offsets fit. -/
theorem found_query_of_length (h : p.text.length < 2 ^ 16) :
    Found p.text (p.tail.queryOff p.tailOff) (p.tail.query.getD []) := by
  cases hq : p.tail.query with
  | none => exact found_nil _ _
  | some q =>
    have hlen : p.tail.queryText.length = q.length + 1 := by simp [Tail.queryText, hq]
    rw [length_text, Tail.text, List.length_append, List.length_append, hlen] at h
    have hfound := found_query (p := p) (by rw [Tail.queryOff]; omega) (by rw [hq, Option.getD_some]; omega)
    rwa [hq] at hfound

/-- So is the fragment. -/
theorem found_fragment_of_length (h : p.text.length < 2 ^ 16) :
    Found p.text p.bareOff (bareFragment (p.tail.fragment.getD [])) := by
  cases hf : p.tail.fragment with
  | none => exact found_nil _ _
  | some f =>
    have hlen : p.tail.fragmentText.length = f.length + 1 := by simp [Tail.fragmentText, hf]
    have hbare : (bareFragment f).length ≤ f.length := (List.dropWhile_suffix _).length_le
    rw [length_text, Tail.text, List.length_append, List.length_append, hlen] at h
    have hfound := found_fragment (p := p) (by rw [bareOff, Tail.fragmentOff, hf, Option.getD_some]; omega)
      (by rw [hf, Option.getD_some]; omega)
    rwa [hf] at hfound

/-- **The number of the port is that of its digits.** -/
theorem readPort_fields (h : p.tailOff < 2 ^ 16) : readPort p.text p.fields =
    match p.authority.port with
    | none => some p.fields
    | some d => (portLoop 0 d).map fun v => { p.fields with port := v } := by
  rw [readPort, field_port]
  cases hd : p.authority.port with
  | none => rfl
  | some d =>
    have hfound := (take_drop_iff_found _ _ _).mpr (found_port h hd)
    rw [Option.map_some]
    dsimp only
    rw [hfound]

end UrlPieces

end HttpParsing
end Wuchat
