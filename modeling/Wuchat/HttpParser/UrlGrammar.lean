/-
# The vendored HTTP parser: the outer loop over a URL with a scheme

The loop of `http_parser_parse_url` on `scheme://authority/path?query#fragment`,
before the authority is taken apart.  It goes over one piece after the other and
notes the offset and the length of each, modulo `2^16` (`urlLoop_url`).  The other
way round a run that does not end in the dead state shows the pieces: what follows
an authority is a path, a query and a fragment (`exists_tail`), and where a host
is set there is an authority before it (`exists_authorityText`).
-/

import Wuchat.HttpParser.Authority

namespace Wuchat
namespace HttpParsing

open Foundation Http

/-! ### What stands behind the authority -/

/-- The path, the query and the fragment, the last two without their delimiters. -/
structure Tail where
  path : Bytes
  query : Option Bytes
  fragment : Option Bytes
  deriving DecidableEq, Repr

namespace Tail

variable (t : Tail)

/-- The query with its question mark. -/
def queryText : Bytes := (t.query.map fun q => chr '?' :: q).getD []

/-- The fragment with its number sign. -/
def fragmentText : Bytes := (t.fragment.map fun f => chr '#' :: f).getD []

/-- What stands behind the authority. -/
def text : Bytes := t.path ++ (t.queryText ++ t.fragmentText)

/-- The pieces have the characters that the loop takes; a fragment stands behind
a path or a query. -/
structure Valid : Prop where
  slash : t.path = [] ∨ t.path.head? = some (chr '/')
  path : ∀ ch ∈ t.path, isUrlChar ch = true
  query : ∀ q, t.query = some q → ∀ ch ∈ q, isQueryChar ch = true
  fragment : ∀ f, t.fragment = some f → ∀ ch ∈ f, isFragmentChar ch = true
  anchored : t.path = [] → t.query = none → t.fragment = none

/-- The offset of the query, where the path begins at `off`. -/
def queryOff (off : Nat) : Nat := off + t.path.length + 1

/-- The offset of the fragment. -/
def fragmentOff (off : Nat) : Nat := off + t.path.length + t.queryText.length + 1

/-- The field of the path set, unless the path is empty. -/
def setPath (off : Nat) (u : HttpParserUrl) : HttpParserUrl :=
  if t.path.isEmpty then u else u.set .UF_PATH off t.path.length

/-- The field of the query set, unless the query is empty. -/
def setQuery (off : Nat) (u : HttpParserUrl) : HttpParserUrl :=
  if (t.query.getD []).isEmpty then u else u.set .UF_QUERY (t.queryOff off) (t.query.getD []).length

/-- The fields of the three pieces. -/
def fields (off : Nat) (u : HttpParserUrl) : HttpParserUrl :=
  setFragment (t.fragmentOff off) (t.fragment.getD []) (t.setQuery off (t.setPath off u))

end Tail

section

variable {st : State} {old : Option UrlField} {a : Bool} {u : HttpParserUrl} {i : Nat}

/-- A fragment with its delimiter, if there is one. -/
theorem urlLoop_fragmentText {t : Tail} (ht : t.Valid)
    (hst : t.fragment ≠ none → parse_url_char st (chr '#') = .s_req_fragment_start)
    (hold : old ≠ some .UF_FRAGMENT) :
    urlLoop st old a u i t.fragmentText = some (setFragment (i + 1) (t.fragment.getD []) u, a) := by
  rw [Tail.fragmentText]
  cases hf : t.fragment with
  | none => rfl
  | some f =>
    show urlLoop st old a u i (chr '#' :: f) = _
    rw [urlLoop_mark .s_req_fragment_start (hst (by rw [hf]; exact nofun)) rfl (by decide),
      urlLoop_fragment (ht.fragment f hf) hold]
    rfl

/-- A query with its delimiter, if there is one, and what follows it. -/
theorem urlLoop_queryText {t : Tail} (ht : t.Valid) {off : Nat} (hi : i = off + t.path.length)
    (hquery : t.query ≠ none → parse_url_char st (chr '?') = .s_req_query_string_start)
    (hfragment : t.query = none → t.fragment ≠ none → parse_url_char st (chr '#') = .s_req_fragment_start)
    (hold : old ≠ some .UF_QUERY ∧ old ≠ some .UF_FRAGMENT) :
    urlLoop st old a u i (t.queryText ++ t.fragmentText) =
      some (setFragment (t.fragmentOff off) (t.fragment.getD []) (t.setQuery off u), a) := by
  have hoff : t.fragmentOff off = i + t.queryText.length + 1 := by rw [Tail.fragmentOff, hi]
  cases hq : t.query with
  | none =>
    have htext : t.queryText = [] := by rw [Tail.queryText, hq]; rfl
    have hset : t.setQuery off u = u := by rw [Tail.setQuery, hq]; rfl
    rw [hoff, htext, hset, List.nil_append, urlLoop_fragmentText ht (hfragment hq) hold.2]
    rfl
  | some q =>
    have htext : t.queryText = chr '?' :: q := by rw [Tail.queryText, hq]; rfl
    have hmark := hquery (by rw [hq]; exact nofun)
    rw [hoff, htext, List.cons_append, urlLoop_mark .s_req_query_string_start hmark rfl (by decide)]
    cases q with
    | nil =>
      have hset : t.setQuery off u = u := by rw [Tail.setQuery, hq]; rfl
      rw [hset, List.nil_append, urlLoop_fragmentText ht (fun _ => by decide) hold.2]
      rfl
    | cons ch qs =>
      obtain ⟨hch, hqs⟩ := List.forall_mem_cons.mp (ht.query _ hq)
      have hset : t.setQuery off u = u.set .UF_QUERY (i + 1) (ch :: qs).length := by
        rw [Tail.setQuery, hq, Tail.queryOff, hi]
        rfl
      have hlen : i + 1 + (ch :: qs).length + 1 = i + (chr '?' :: ch :: qs).length + 1 := by
        simp only [List.length_cons]
        omega
      rw [urlLoop_part .s_req_query_string .UF_QUERY (parse_url_char_query hch).1 rfl (by decide) hold.1
          (fun c hc => (parse_url_char_query (hqs c hc)).2),
        urlLoop_fragmentText ht (fun _ => by decide) (by decide), hset, hlen]

/-- **The loop over what stands behind an authority.** -/
theorem urlLoop_tail {t : Tail} (ht : t.Valid) (hst : st = .s_req_server ∨ st = .s_req_server_with_at)
    (hold : old = some .UF_HOST) : urlLoop st old a u i t.text = some (t.fields i u, a) := by
  have hslash : parse_url_char st (chr '/') = .s_req_path := by rcases hst with rfl | rfl <;> decide
  have hmark : parse_url_char st (chr '?') = .s_req_query_string_start := by rcases hst with rfl | rfl <;> decide
  rw [Tail.text, Tail.fields, Tail.setPath]
  rcases hp : t.path with _ | ⟨ch, bs⟩
  · rw [List.nil_append, List.isEmpty_nil, if_pos rfl, hold]
    exact urlLoop_queryText ht (by rw [hp]; rfl) (fun _ => hmark) (fun hq hf => absurd (ht.anchored hp hq) hf)
      ⟨by decide, by decide⟩
  · have hhead := ht.slash
    rw [hp, List.head?_cons] at hhead
    obtain rfl := Option.some.inj (hhead.resolve_left (List.cons_ne_nil _ _))
    have hbs : ∀ c ∈ bs, parse_url_char .s_req_path c = .s_req_path := fun c hc =>
      parse_url_char_path (ht.path c (by rw [hp]; exact List.mem_cons_of_mem _ hc))
    rw [urlLoop_part .s_req_path .UF_PATH hslash rfl (by decide) (by rw [hold]; decide) hbs,
      urlLoop_queryText ht (by rw [hp]) (fun _ => by decide) (fun _ _ => by decide) ⟨by decide, by decide⟩,
      List.isEmpty_cons, if_neg Bool.false_ne_true]

end

/-! ### The scheme and the authority -/

/-- A character of an authority, for the outer loop. -/
def isServerChar (ch : UInt8) : Bool := isUserinfoChar ch || ch == chr '[' || ch == chr ']' || ch == chr '@'

/-- The states in which the characters of a scheme and of an authority leave the loop. -/
theorem parse_url_char_authority (ch : UInt8) :
    (isAlpha ch = true → parse_url_char .s_req_spaces_before_url ch = .s_req_schema ∧
      parse_url_char .s_req_schema ch = .s_req_schema) ∧
    (isServerChar ch = true → ch ≠ chr '@' → parse_url_char .s_req_server_start ch = .s_req_server ∧
      parse_url_char .s_req_server ch = .s_req_server ∧ parse_url_char .s_req_server_with_at ch = .s_req_server) := by
  revert ch
  exact forall_byte (by decide +kernel)

/-- A dead URL stays dead. -/
theorem parse_url_char_dead (ch : UInt8) : parse_url_char .s_dead ch = .s_dead := by
  unfold parse_url_char
  split <;> rfl

/-- A state within an authority. -/
def InServer (st : State) : Prop := st = .s_req_server ∨ st = .s_req_server_with_at

section

variable {st : State} {old : Option UrlField} {a : Bool} {u : HttpParserUrl} {i off len : Nat}

/-- The state behind a character of an authority. -/
theorem inServer_step (hst : st = .s_req_server_start ∨ InServer st) {ch : UInt8} (hch : isServerChar ch = true)
    (halive : parse_url_char st ch ≠ .s_dead) : InServer (parse_url_char st ch) ∧
      (parse_url_char st ch == .s_req_server_with_at) = (ch == chr '@') := by
  by_cases hat : ch = chr '@'
  · subst hat
    rcases hst with rfl | rfl | rfl
    · exact ⟨.inr (by decide), by decide⟩
    · exact ⟨.inr (by decide), by decide⟩
    · exact absurd (by decide) halive
  · have hserver : parse_url_char st ch = .s_req_server := by
      rcases hst with rfl | rfl | rfl
      · exact ((parse_url_char_authority ch).2 hch hat).1
      · exact ((parse_url_char_authority ch).2 hch hat).2.1
      · exact ((parse_url_char_authority ch).2 hch hat).2.2
    rw [hserver]
    refine ⟨.inl rfl, ?_⟩
    rw [beq_eq_false_iff_ne.mpr hat]
    rfl

/-- One character of an authority. -/
theorem urlLoop_serverChar (hst : st = .s_req_server_start ∨ InServer st) {ch : UInt8} (hch : isServerChar ch = true)
    (halive : parse_url_char st ch ≠ .s_dead) (rest : Bytes) :
    urlLoop st old a u i (ch :: rest) =
      if old = some .UF_HOST then
        urlLoop (parse_url_char st ch) old (a || ch == chr '@') (u.grow .UF_HOST) (i + 1) rest
      else urlLoop (parse_url_char st ch) (some .UF_HOST) (a || ch == chr '@') (u.set .UF_HOST i 1) (i + 1) rest := by
  obtain ⟨hin, hat⟩ := inServer_step hst hch halive
  have hfield : urlField (parse_url_char st ch) = some .UF_HOST := by
    rcases hin with h | h <;> rw [h] <;> rfl
  rw [urlLoop_cons, if_neg halive, hfield, hat]

/-- The state stays within the authority. -/
theorem inServer_foldl (hst : InServer st) {bs : Bytes} (hall : ∀ ch ∈ bs, isServerChar ch = true)
    (halive : bs.foldl parse_url_char st ≠ .s_dead) : InServer (bs.foldl parse_url_char st) := by
  induction bs generalizing st with
  | nil => exact hst
  | cons ch bs ih =>
    obtain ⟨hch, hbs⟩ := List.forall_mem_cons.mp hall
    exact ih (inServer_step (.inr hst) hch (step_ne_of_foldl_ne parse_url_char_dead halive)).1 hbs halive

/-- The characters of a server stay in it. -/
theorem inServer_foldl_start {auth : Bytes} (hne : auth ≠ []) (hall : ∀ ch ∈ auth, isServerChar ch = true)
    (halive : auth.foldl parse_url_char .s_req_server_start ≠ .s_dead) :
    InServer (auth.foldl parse_url_char .s_req_server_start) := by
  obtain ⟨ch, bs, rfl⟩ := List.exists_cons_of_ne_nil hne
  obtain ⟨hch, hbs⟩ := List.forall_mem_cons.mp hall
  exact inServer_foldl (inServer_step (.inl rfl) hch (step_ne_of_foldl_ne parse_url_char_dead halive)).1 hbs halive

/-- More characters of an authority. -/
theorem urlLoop_server (hst : InServer st) {bs : Bytes} (hall : ∀ ch ∈ bs, isServerChar ch = true)
    (halive : bs.foldl parse_url_char st ≠ .s_dead) (rest : Bytes) :
    urlLoop st (some .UF_HOST) a (u.set .UF_HOST off len) i (bs ++ rest) =
      urlLoop (bs.foldl parse_url_char st) (some .UF_HOST) (a || bs.contains (chr '@'))
        (u.set .UF_HOST off (len + bs.length)) (i + bs.length) rest := by
  induction bs generalizing st a i len with
  | nil =>
    rw [show ([] : Bytes).contains (chr '@') = false from rfl, Bool.or_false]
    rfl
  | cons ch bs ih =>
    obtain ⟨hch, hbs⟩ := List.forall_mem_cons.mp hall
    have hstep := step_ne_of_foldl_ne parse_url_char_dead halive
    obtain ⟨hin, -⟩ := inServer_step (.inr hst) hch hstep
    have hlen : ∀ n : Nat, n + 1 + bs.length = n + (ch :: bs).length := by
      intro n
      rw [List.length_cons]
      omega
    have hat : (a || ch == chr '@' || bs.contains (chr '@')) = (a || (ch :: bs).contains (chr '@')) := by
      rw [List.contains_cons, Bool.or_assoc, Bool.beq_comm]
    rw [List.cons_append, urlLoop_serverChar (.inr hst) hch hstep, if_pos rfl, HttpParserUrl.grow_set,
      ih hin hbs halive, hat, hlen, hlen, List.foldl_cons]

/-- **An authority from its first character on.** -/
theorem urlLoop_authority {auth : Bytes} (hne : auth ≠ []) (hall : ∀ ch ∈ auth, isServerChar ch = true)
    (halive : auth.foldl parse_url_char .s_req_server_start ≠ .s_dead) (hold : old ≠ some .UF_HOST) (rest : Bytes) :
    urlLoop .s_req_server_start old a u i (auth ++ rest) =
      urlLoop (auth.foldl parse_url_char .s_req_server_start) (some .UF_HOST) (a || auth.contains (chr '@'))
        (u.set .UF_HOST i auth.length) (i + auth.length) rest := by
  obtain ⟨ch, bs, rfl⟩ := List.exists_cons_of_ne_nil hne
  obtain ⟨hch, hbs⟩ := List.forall_mem_cons.mp hall
  have hstep := step_ne_of_foldl_ne parse_url_char_dead halive
  obtain ⟨hin, -⟩ := inServer_step (.inl rfl) hch hstep
  have hlen : i + 1 + bs.length = i + (ch :: bs).length := by
    rw [List.length_cons]
    omega
  have hlen' : 1 + bs.length = (ch :: bs).length := Nat.add_comm 1 _
  have hat : (a || ch == chr '@' || bs.contains (chr '@')) = (a || (ch :: bs).contains (chr '@')) := by
    rw [List.contains_cons, Bool.or_assoc, Bool.beq_comm]
  rw [List.cons_append, urlLoop_serverChar (.inl rfl) hch hstep, if_neg hold, urlLoop_server hin hbs halive, hat,
    hlen', hlen, List.foldl_cons]

end

/-- The pieces of a URL before its authority is taken apart. -/
structure IsSplit (scheme auth : Bytes) (t : Tail) : Prop where
  scheme_ne : scheme ≠ []
  scheme_chars : ∀ ch ∈ scheme, isAlpha ch = true
  auth_ne : auth ≠ []
  auth_chars : ∀ ch ∈ auth, isServerChar ch = true
  alive : auth.foldl parse_url_char .s_req_server_start ≠ .s_dead
  tail : t.Valid

/-- `scheme://authority` and what follows. -/
def splitText (scheme auth : Bytes) (t : Tail) : Bytes := scheme ++ (str "://" ++ (auth ++ t.text))

/-- The fields of the pieces. -/
def splitFields (scheme auth : Bytes) (t : Tail) : HttpParserUrl :=
  t.fields (scheme.length + 3 + auth.length)
    (((⟨0, fun _ => none⟩ : HttpParserUrl).set .UF_SCHEMA 0 scheme.length).set .UF_HOST (scheme.length + 3) auth.length)

/-- The loop over a scheme. -/
theorem urlLoop_scheme {scheme : Bytes} (hne : scheme ≠ []) (h : ∀ ch ∈ scheme, isAlpha ch = true) (rest : Bytes) :
    urlLoop .s_req_spaces_before_url none false ⟨0, fun _ => none⟩ 0 (scheme ++ rest) =
      urlLoop .s_req_schema (some .UF_SCHEMA) false
        ((⟨0, fun _ => none⟩ : HttpParserUrl).set .UF_SCHEMA 0 scheme.length) scheme.length rest := by
  obtain ⟨ch, bs, rfl⟩ := List.exists_cons_of_ne_nil hne
  obtain ⟨hch, hbs⟩ := List.forall_mem_cons.mp h
  rw [urlLoop_part .s_req_schema .UF_SCHEMA ((parse_url_char_authority ch).1 hch).1 rfl (by decide) (by decide)
    (fun c hc => ((parse_url_char_authority c).1 (hbs c hc)).2), Nat.zero_add]

/-- **The loop over a URL with a scheme.** -/
theorem urlLoop_url {scheme auth : Bytes} {t : Tail} (h : IsSplit scheme auth t) :
    urlLoop .s_req_spaces_before_url none false ⟨0, fun _ => none⟩ 0 (splitText scheme auth t) =
      some (splitFields scheme auth t, auth.contains (chr '@')) := by
  have hcolon : str "://" ++ (auth ++ t.text) = chr ':' :: chr '/' :: chr '/' :: (auth ++ t.text) := rfl
  rw [splitText, urlLoop_scheme h.scheme_ne h.scheme_chars, hcolon,
    urlLoop_mark .s_req_schema_slash (by decide) rfl (by decide),
    urlLoop_mark .s_req_schema_slash_slash (by decide) rfl (by decide),
    urlLoop_mark .s_req_server_start (by decide) rfl (by decide)]
  rw [urlLoop_authority h.auth_ne h.auth_chars h.alive (by decide),
    urlLoop_tail h.tail (inServer_foldl_start h.auth_ne h.auth_chars h.alive) rfl, Bool.false_or]
  rfl

/-! ### What the loop takes -/

/-- The characters that a state takes. -/
theorem parse_url_char_ne_dead (ch : UInt8) :
    (parse_url_char .s_req_spaces_before_url ch ≠ .s_dead → isAlpha ch = true ∨
      parse_url_char .s_req_spaces_before_url ch = .s_req_path) ∧
    (parse_url_char .s_req_schema ch ≠ .s_dead → isAlpha ch = true ∨ ch = chr ':') ∧
    (parse_url_char .s_req_schema_slash ch ≠ .s_dead → ch = chr '/') ∧
    (parse_url_char .s_req_schema_slash_slash ch ≠ .s_dead → ch = chr '/') ∧
    (∀ st ∈ [State.s_req_server_start, .s_req_server, .s_req_server_with_at], parse_url_char st ch ≠ .s_dead →
      isServerChar ch = true ∨ ch = chr '/' ∨ ch = chr '?') ∧
    (parse_url_char .s_req_path ch ≠ .s_dead → isUrlChar ch = true ∨ ch = chr '?' ∨ ch = chr '#') ∧
    (∀ st ∈ [State.s_req_query_string_start, .s_req_query_string], parse_url_char st ch ≠ .s_dead →
      isQueryChar ch = true ∨ ch = chr '#') ∧
    (∀ st ∈ [State.s_req_fragment_start, .s_req_fragment], parse_url_char st ch ≠ .s_dead →
      isFragmentChar ch = true ∧ parse_url_char st ch ∈ [State.s_req_fragment_start, .s_req_fragment]) := by
  revert ch
  exact forall_byte (by decide +kernel)

/-- A run that is not dead in a fragment. -/
theorem isFragmentChar_of_alive {st : State} (hst : st ∈ [State.s_req_fragment_start, .s_req_fragment]) {bs : Bytes}
    (halive : bs.foldl parse_url_char st ≠ .s_dead) : ∀ ch ∈ bs, isFragmentChar ch = true := by
  induction bs generalizing st with
  | nil => simp
  | cons ch bs ih =>
    obtain ⟨hch, hnext⟩ := (parse_url_char_ne_dead ch).2.2.2.2.2.2.2 st hst
      (step_ne_of_foldl_ne parse_url_char_dead halive)
    exact List.forall_mem_cons.mpr ⟨hch, ih hnext halive⟩

/-- A run that is not dead from the `?` of a query on. -/
theorem exists_query {bs : Bytes} (halive : bs.foldl parse_url_char .s_req_query_string_start ≠ .s_dead) :
    ∃ (q : Bytes) (fragment : Option Bytes), bs = q ++ (fragment.map fun f => chr '#' :: f).getD [] ∧
      (∀ ch ∈ q, isQueryChar ch = true) ∧ ∀ f, fragment = some f → ∀ ch ∈ f, isFragmentChar ch = true := by
  -- the two states of a query take the same characters
  have hsame : bs.foldl parse_url_char .s_req_query_string ≠ .s_dead := by
    rcases bs with _ | ⟨ch, bs⟩
    · exact nofun
    · exact halive
  have hstay : ∀ c, isQueryChar c = true → parse_url_char .s_req_query_string c = .s_req_query_string :=
    fun c hc => (parse_url_char_query hc).2
  obtain ⟨q, b, rfl, hq, hb, hrun⟩ := exists_stay hstay bs
  rw [hrun] at hsame
  rcases hb with rfl | ⟨c, f, rfl, hc⟩
  · exact ⟨q, none, rfl, hq, nofun⟩
  · have hhash := (parse_url_char_ne_dead c).2.2.2.2.2.2.1 .s_req_query_string (by decide)
      (step_ne_of_foldl_ne parse_url_char_dead hsame)
    rw [hc] at hhash
    obtain rfl := hhash.resolve_left Bool.false_ne_true
    refine ⟨q, some f, rfl, hq, fun g hg => ?_⟩
    obtain rfl := Option.some.inj hg
    have hstart : parse_url_char .s_req_query_string (chr '#') = .s_req_fragment_start := by decide
    rw [List.foldl_cons, hstart] at hsame
    exact isFragmentChar_of_alive (by decide) hsame

/-- A run that is not dead behind an authority. -/
theorem exists_tail {st : State} (hst : InServer st) {bs : Bytes}
    (hhead : ∀ ch t, bs = ch :: t → isServerChar ch = false)
    (halive : bs.foldl parse_url_char st ≠ .s_dead) : ∃ t : Tail, t.Valid ∧ bs = t.text := by
  have hslash : parse_url_char st (chr '/') = .s_req_path := by rcases hst with rfl | rfl <;> decide
  have hmark : parse_url_char st (chr '?') = .s_req_query_string_start := by rcases hst with rfl | rfl <;> decide
  rcases bs with _ | ⟨ch, bs⟩
  · exact ⟨⟨[], none, none⟩, ⟨.inl rfl, by simp, nofun, nofun, fun _ _ => rfl⟩, rfl⟩
  have hmem : st ∈ [State.s_req_server_start, .s_req_server, .s_req_server_with_at] := by
    rcases hst with rfl | rfl <;> decide
  have hch := (parse_url_char_ne_dead ch).2.2.2.2.1 st hmem (step_ne_of_foldl_ne parse_url_char_dead halive)
  rw [hhead ch bs rfl] at hch
  rcases hch.resolve_left Bool.false_ne_true with rfl | rfl
  · rw [List.foldl_cons, hslash] at halive
    have hstay : ∀ c, isUrlChar c = true → parse_url_char .s_req_path c = .s_req_path := fun c => parse_url_char_path
    obtain ⟨p, b, rfl, hp, hb, hrun⟩ := exists_stay hstay bs
    have hpath : ∀ c ∈ chr '/' :: p, isUrlChar c = true := List.forall_mem_cons.mpr ⟨by decide, hp⟩
    rw [hrun] at halive
    rcases hb with rfl | ⟨c, t, rfl, hc⟩
    · exact ⟨⟨chr '/' :: p, none, none⟩, ⟨.inr rfl, hpath, nofun, nofun, nofun⟩, rfl⟩
    have hdelim := (parse_url_char_ne_dead c).2.2.2.2.2.1 (step_ne_of_foldl_ne parse_url_char_dead halive)
    rw [hc] at hdelim
    rcases hdelim.resolve_left Bool.false_ne_true with rfl | rfl
    · have hstart : parse_url_char .s_req_path (chr '?') = .s_req_query_string_start := by decide
      rw [List.foldl_cons, hstart] at halive
      obtain ⟨q, fragment, rfl, hq, hf⟩ := exists_query halive
      refine ⟨⟨chr '/' :: p, some q, fragment⟩, ⟨.inr rfl, hpath, fun r hr => ?_, hf, nofun⟩, rfl⟩
      obtain rfl := Option.some.inj hr
      exact hq
    · have hstart : parse_url_char .s_req_path (chr '#') = .s_req_fragment_start := by decide
      rw [List.foldl_cons, hstart] at halive
      refine ⟨⟨chr '/' :: p, none, some t⟩, ⟨.inr rfl, hpath, nofun, fun r hr => ?_, nofun⟩, rfl⟩
      obtain rfl := Option.some.inj hr
      exact isFragmentChar_of_alive (by decide) halive
  · rw [List.foldl_cons, hmark] at halive
    obtain ⟨q, fragment, rfl, hq, hf⟩ := exists_query halive
    refine ⟨⟨[], some q, fragment⟩, ⟨.inl rfl, by simp, fun r hr => ?_, hf, nofun⟩, rfl⟩
    obtain rfl := Option.some.inj hr
    exact hq

/-- The states from the path on. -/
def late : List State :=
  [.s_req_path, .s_req_query_string_start, .s_req_query_string, .s_req_fragment_start, .s_req_fragment]

/-- Behind the server a URL does not go back to it. -/
theorem parse_url_char_late (ch : UInt8) :
    ∀ st ∈ late, parse_url_char st ch ≠ .s_dead → parse_url_char st ch ∈ late := by
  revert ch
  exact forall_byte (by decide +kernel)

section

variable {st : State} {old : Option UrlField} {a b : Bool} {u v : HttpParserUrl} {i : Nat} {bs : Bytes}

/-- From the path on neither the scheme nor the host is set. -/
theorem urlLoop_late (hst : st ∈ late) (h : urlLoop st old a u i bs = some (v, b)) {uf : UrlField}
    (huf : uf = .UF_SCHEMA ∨ uf = .UF_HOST) : v.field uf = u.field uf := by
  induction bs generalizing st old a u i with
  | nil =>
    obtain ⟨rfl, -⟩ := Prod.mk.inj (Option.some.inj h)
    rfl
  | cons ch bs ih =>
    rw [urlLoop_cons] at h
    split at h
    · cases h
    · rename_i hne
      have hnext := parse_url_char_late ch st hst hne
      have hfield : urlField (parse_url_char st ch) ≠ some uf := by
        generalize parse_url_char st ch = st' at hnext
        rcases huf with rfl | rfl <;> revert st' <;> decide
      split at h
      · exact ih hnext h
      · rename_i uf' huf'
        have hne' : uf ≠ uf' := fun he => hfield (he ▸ huf')
        dsimp only at h
        split at h
        · rw [ih hnext h, HttpParserUrl.grow, HttpParserUrl.field_set_of_ne hne']
        · rw [ih hnext h, HttpParserUrl.field_set_of_ne hne']

/-- A run of the loop is not dead. -/
theorem urlLoop_alive (hst : st ≠ .s_dead) (h : urlLoop st old a u i bs = some (v, b)) :
    bs.foldl parse_url_char st ≠ .s_dead := by
  induction bs generalizing st old a u i with
  | nil => exact hst
  | cons ch bs ih =>
    rw [urlLoop_cons] at h
    split at h
    · cases h
    · rename_i hne
      split at h
      · exact ih hne h
      · dsimp only at h
        split at h
        · exact ih hne h
        · exact ih hne h

/-- An authority is there if the host is set. -/
theorem exists_authorityText (h : urlLoop .s_req_server_start old a u i bs = some (v, b)) (hu : u.field .UF_HOST = none)
    (hv : v.field .UF_HOST ≠ none) : ∃ (auth : Bytes) (t : Tail), auth ≠ [] ∧ (∀ ch ∈ auth, isServerChar ch = true) ∧
      auth.foldl parse_url_char .s_req_server_start ≠ .s_dead ∧ t.Valid ∧ bs = auth ++ t.text := by
  have halive := urlLoop_alive (by decide) h
  have hsplit : bs.takeWhile isServerChar ++ bs.dropWhile isServerChar = bs := List.takeWhile_append_dropWhile
  generalize hauth : bs.takeWhile isServerChar = auth at hsplit
  generalize hrest : bs.dropWhile isServerChar = rest at hsplit
  have hchars : ∀ ch ∈ auth, isServerChar ch = true := by
    intro ch hch
    rw [← hauth] at hch
    exact List.all_eq_true.mp List.all_takeWhile ch hch
  have hhead : ∀ ch t, rest = ch :: t → isServerChar ch = false := by
    intro ch t hr
    have hnot := List.head?_dropWhile_not isServerChar bs
    rw [hrest, hr] at hnot
    simpa using hnot
  rw [← hsplit, List.foldl_append] at halive
  have halive' : auth.foldl parse_url_char .s_req_server_start ≠ .s_dead := fun hd => by
    rw [hd, foldl_dead parse_url_char_dead] at halive
    exact halive rfl
  by_cases hne : auth = []
  · -- without an authority the host stays unset
    exfalso
    rw [hne, List.nil_append] at hsplit
    subst hsplit
    rcases rest with _ | ⟨ch, t⟩
    · obtain ⟨rfl, -⟩ := Prod.mk.inj (Option.some.inj h)
      exact hv hu
    · rw [hne] at halive
      have hch := (parse_url_char_ne_dead ch).2.2.2.2.1 .s_req_server_start (by decide)
        (step_ne_of_foldl_ne parse_url_char_dead halive)
      rw [hhead ch t rfl] at hch
      rcases hch.resolve_left Bool.false_ne_true with rfl | rfl
      · rw [urlLoop_cons, if_neg (by decide)] at h
        have hstep : parse_url_char .s_req_server_start (chr '/') = .s_req_path := by decide
        rw [hstep] at h
        dsimp only [urlField] at h
        split at h
        · rw [urlLoop_late (by decide) h (.inr rfl), HttpParserUrl.grow,
            HttpParserUrl.field_set_of_ne (by decide)] at hv
          exact hv hu
        · rw [urlLoop_late (by decide) h (.inr rfl), HttpParserUrl.field_set_of_ne (by decide)] at hv
          exact hv hu
      · rw [urlLoop_mark .s_req_query_string_start (by decide) rfl (by decide)] at h
        rw [urlLoop_late (by decide) h (.inr rfl)] at hv
        exact hv hu
  · have hin := inServer_foldl_start hne hchars halive'
    obtain ⟨t, ht, rfl⟩ := exists_tail hin hhead halive
    exact ⟨auth, t, hne, hchars, halive', ht, hsplit.symm⟩

end

end HttpParsing
end Wuchat
