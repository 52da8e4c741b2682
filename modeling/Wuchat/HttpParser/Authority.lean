/-
# The vendored HTTP parser: the authority of a URL

`http_parse_host` on `user@host:port`, where the host may stand in brackets.  The
loop takes an authority exactly if it is put together in this way (`Authority`,
`exists_authority`), and then its fields are those of the pieces
(`hostLoop_text`): the host without its brackets, the port without its
colon, and no userinfo when nothing stands before the `@`.
-/

import Wuchat.Foundation.Automaton
import Wuchat.HttpParser.UrlParts

namespace Wuchat
namespace HttpParsing

open Foundation Http

/-- A character of an address in brackets. -/
def isV6Char (ch : UInt8) : Bool := isHex ch || ch == chr ':' || ch == chr '.'

/-- A character of a zone. -/
def isZoneChar (ch : UInt8) : Bool := isAlphanum ch || ch ∈ str "%.-_~"

/-- The zone behind an address in brackets, if there is one. -/
def IsZone (z : Bytes) : Prop :=
  z = [] ∨ ∃ bs, z = chr '%' :: bs ∧ bs ≠ [] ∧ ∀ ch ∈ bs, isZoneChar ch = true

/-- A host in brackets: an address and perhaps a zone. -/
def IsV6 (host : Bytes) : Prop :=
  ∃ addr zone, host = addr ++ zone ∧ addr ≠ [] ∧ (∀ ch ∈ addr, isV6Char ch = true) ∧ IsZone zone

/-- The pieces of an authority. -/
structure Authority where
  userinfo : Option Bytes
  bracketed : Bool
  host : Bytes
  port : Option Bytes
  deriving DecidableEq, Repr

namespace Authority

variable (a : Authority)

/-- The user before the host, with its `@`. -/
def userinfoText : Bytes := (a.userinfo.map fun x => x ++ [chr '@']).getD []

/-- The host, in brackets where it has them. -/
def hostText : Bytes := if a.bracketed then chr '[' :: a.host ++ [chr ']'] else a.host

/-- The port behind the host, with its colon. -/
def portText : Bytes := (a.port.map fun d => chr ':' :: d).getD []

/-- The authority as it stands in a URL. -/
def text : Bytes := a.userinfoText ++ (a.hostText ++ a.portText)

/-- The pieces have the characters that the loop takes. -/
structure Valid : Prop where
  userinfo : ∀ x, a.userinfo = some x → ∀ ch ∈ x, isUserinfoChar ch = true
  host : if a.bracketed then IsV6 a.host else a.host ≠ [] ∧ ∀ ch ∈ a.host, isHostChar ch = true
  port : ∀ d, a.port = some d → d ≠ [] ∧ ∀ ch ∈ d, isNum ch = true

/-- The offset of the host in a URL where the authority begins at `off`. -/
def hostOff (off : Nat) : Nat := off + a.userinfoText.length + if a.bracketed then 1 else 0

/-- The offset of the port. -/
def portOff (off : Nat) : Nat := off + a.userinfoText.length + a.hostText.length + 1

/-- The field of the userinfo. -/
def setUserinfo (off : Nat) (u : HttpParserUrl) : HttpParserUrl :=
  if (a.userinfo.getD []).isEmpty then u else u.set .UF_USERINFO off (a.userinfo.getD []).length

/-- The field of the port. -/
def setPort (off : Nat) (u : HttpParserUrl) : HttpParserUrl :=
  match a.port with
  | none => u
  | some d => u.set .UF_PORT (a.portOff off) d.length

/-- The fields of an authority. -/
def fields (off : Nat) (u : HttpParserUrl) : HttpParserUrl :=
  a.setPort off ((a.setUserinfo off u).set .UF_HOST (a.hostOff off) a.host.length)

end Authority

/-! ### The loop over an authority -/

/-- The states in which the characters leave the loop. -/
theorem http_parse_host_chars (ch : UInt8) :
    (isUserinfoChar ch = true → ch ≠ chr '@' ∧ http_parse_host_char .s_http_userinfo_start ch = .s_http_userinfo ∧
      http_parse_host_char .s_http_userinfo ch = .s_http_userinfo) ∧
    (isHostChar ch = true → http_parse_host_char .s_http_host_start ch = .s_http_host ∧
      http_parse_host_char .s_http_host ch = .s_http_host) ∧
    (isV6Char ch = true → http_parse_host_char .s_http_host_v6_start ch = .s_http_host_v6 ∧
      http_parse_host_char .s_http_host_v6 ch = .s_http_host_v6) ∧
    (isZoneChar ch = true → http_parse_host_char .s_http_host_v6_zone_start ch = .s_http_host_v6_zone ∧
      http_parse_host_char .s_http_host_v6_zone ch = .s_http_host_v6_zone) ∧
    (isNum ch = true → http_parse_host_char .s_http_host_port_start ch = .s_http_host_port ∧
      http_parse_host_char .s_http_host_port ch = .s_http_host_port) := by
  revert ch
  exact forall_byte (by decide +kernel)

section

variable {st st' : HostState} {u : HttpParserUrl} {uf : UrlField} {i off len : Nat} {ch : UInt8} {bs : Bytes}

/-- One turn of the loop. -/
theorem hostLoop_step (st' : HostState) (hch : http_parse_host_char st ch = st') (hdead : st' ≠ .s_http_host_dead)
    (rest : Bytes) :
    hostLoop st u i (ch :: rest) = hostLoop st' (hostField u st st' i) (i + 1) rest := by
  rw [hostLoop, hch]
  exact if_neg hdead

/-- More characters of the piece the loop is in. -/
theorem hostLoop_same (hgrow : ∀ u i, hostField u st st i = u.grow uf) (hdead : st ≠ .s_http_host_dead)
    (hall : ∀ ch ∈ bs, http_parse_host_char st ch = st) (rest : Bytes) :
    hostLoop st (u.set uf off len) i (bs ++ rest) =
      hostLoop st (u.set uf off (len + bs.length)) (i + bs.length) rest := by
  induction bs generalizing i len with
  | nil => rfl
  | cons ch bs ih =>
    obtain ⟨hch, hbs⟩ := List.forall_mem_cons.mp hall
    have hlen : ∀ n : Nat, n + 1 + bs.length = n + (ch :: bs).length := by
      intro n
      rw [List.length_cons]
      omega
    rw [List.cons_append, hostLoop_step st hch hdead, hgrow, HttpParserUrl.grow_set, ih hbs, hlen, hlen]

/-- **A piece from its first character on.** -/
theorem hostLoop_piece (hch : http_parse_host_char st ch = st') (hdead : st' ≠ .s_http_host_dead)
    (hset : hostField u st st' i = u.set uf i 1) (hgrow : ∀ u i, hostField u st' st' i = u.grow uf)
    (hall : ∀ ch ∈ bs, http_parse_host_char st' ch = st') (rest : Bytes) :
    hostLoop st u i (ch :: bs ++ rest) =
      hostLoop st' (u.set uf i (ch :: bs).length) (i + (ch :: bs).length) rest := by
  have hlen : 1 + bs.length = (ch :: bs).length := Nat.add_comm 1 _
  rw [List.cons_append, hostLoop_step st' hch hdead, hset, hostLoop_same hgrow hdead hall, Nat.add_assoc, hlen]

end

section

variable {u : HttpParserUrl} {i : Nat}

/-- A host without brackets. -/
theorem hostLoop_plain {host : Bytes} (hne : host ≠ []) (h : ∀ ch ∈ host, isHostChar ch = true)
    (hu : hostField.hostLen u = 0) (rest : Bytes) :
    hostLoop .s_http_host_start u i (host ++ rest) =
      hostLoop .s_http_host (u.set .UF_HOST i host.length) (i + host.length) rest := by
  obtain ⟨ch, bs, rfl⟩ := List.exists_cons_of_ne_nil hne
  obtain ⟨hch, hbs⟩ := List.forall_mem_cons.mp h
  refine hostLoop_piece ((http_parse_host_chars ch).2.1 hch).1 (by decide) ?_ (fun _ _ => rfl)
    (fun c hc => ((http_parse_host_chars c).2.1 (hbs c hc)).2) rest
  simp [hostField, hu]

/-- A zone behind an address in brackets. -/
theorem hostLoop_zone {zone : Bytes} (h : IsZone zone) (off len : Nat) (rest : Bytes) :
    ∃ st, (st = .s_http_host_v6 ∨ st = .s_http_host_v6_zone) ∧
      hostLoop .s_http_host_v6 (u.set .UF_HOST off len) i (zone ++ rest) =
        hostLoop st (u.set .UF_HOST off (len + zone.length)) (i + zone.length) rest := by
  rcases h with rfl | ⟨bs, rfl, hne, hbs⟩
  · exact ⟨.s_http_host_v6, .inl rfl, rfl⟩
  · obtain ⟨ch, bs, rfl⟩ := List.exists_cons_of_ne_nil hne
    obtain ⟨hch, hbs⟩ := List.forall_mem_cons.mp hbs
    have hlen : ∀ n : Nat, n + 1 + 1 + bs.length = n + (chr '%' :: ch :: bs).length := by
      intro n
      simp only [List.length_cons]
      omega
    refine ⟨.s_http_host_v6_zone, .inr rfl, ?_⟩
    rw [List.cons_append, hostLoop_step .s_http_host_v6_zone_start (by decide) (by decide),
      List.cons_append, hostLoop_step .s_http_host_v6_zone ((http_parse_host_chars ch).2.2.2.1 hch).1 (by decide)]
    simp only [hostField, HttpParserUrl.grow_set]
    rw [hostLoop_same (fun _ _ => rfl) (by decide) (fun c hc => ((http_parse_host_chars c).2.2.2.1 (hbs c hc)).2),
      hlen, hlen]

/-- A host in brackets. -/
theorem hostLoop_brackets {host : Bytes} (h : IsV6 host) (hu : hostField.hostLen u = 0) (rest : Bytes) :
    hostLoop .s_http_host_start u i (chr '[' :: host ++ [chr ']'] ++ rest) =
      hostLoop .s_http_host_v6_end (u.set .UF_HOST (i + 1) host.length) (i + host.length + 2) rest := by
  obtain ⟨addr, zone, rfl, hne, haddr, hzone⟩ := h
  obtain ⟨ch, bs, rfl⟩ := List.exists_cons_of_ne_nil hne
  obtain ⟨hch, hbs⟩ := List.forall_mem_cons.mp haddr
  have hshape : chr '[' :: (ch :: bs ++ zone) ++ [chr ']'] ++ rest =
      chr '[' :: (ch :: bs ++ (zone ++ (chr ']' :: rest))) := by simp
  have hset : hostField u .s_http_host_v6_start .s_http_host_v6 (i + 1) = u.set .UF_HOST (i + 1) 1 := by
    simp [hostField, hu]
  rw [hshape, hostLoop_step .s_http_host_v6_start (by decide) (by decide)]
  show hostLoop _ u _ _ = _
  rw [hostLoop_piece ((http_parse_host_chars ch).2.2.1 hch).1 (by decide) hset (fun _ _ => rfl)
    (fun c hc => ((http_parse_host_chars c).2.2.1 (hbs c hc)).2)]
  obtain ⟨st, hst, hloop⟩ := hostLoop_zone (u := u) (i := i + 1 + (ch :: bs).length) hzone (i + 1) (ch :: bs).length
    (chr ']' :: rest)
  have hclose : http_parse_host_char st (chr ']') = .s_http_host_v6_end := by
    rcases hst with rfl | rfl <;> decide
  have hlen : i + 1 + (ch :: bs).length + zone.length + 1 = i + (ch :: bs ++ zone).length + 2 := by
    rw [List.length_append]
    omega
  rw [hloop, hostLoop_step .s_http_host_v6_end hclose (by decide), hlen, List.length_append]
  rfl

/-- A port behind a host. -/
theorem hostLoop_port {st : HostState} (hst : http_parse_host_char st (chr ':') = .s_http_host_port_start)
    {d : Bytes} (hne : d ≠ []) (h : ∀ ch ∈ d, isNum ch = true) :
    hostLoop st u i (chr ':' :: d) = some (.s_http_host_port, u.set .UF_PORT (i + 1) d.length) := by
  obtain ⟨ch, bs, rfl⟩ := List.exists_cons_of_ne_nil hne
  obtain ⟨hch, hbs⟩ := List.forall_mem_cons.mp h
  have hpiece := hostLoop_piece (u := u) (i := i + 1) ((http_parse_host_chars ch).2.2.2.2 hch).1 (by decide) rfl
    (fun _ _ => rfl) (fun c hc => ((http_parse_host_chars c).2.2.2.2 (hbs c hc)).2) []
  rw [List.append_nil] at hpiece
  rw [hostLoop_step .s_http_host_port_start hst (by decide)]
  show hostLoop _ u _ _ = _
  rw [hpiece]
  rfl

end

/-- A userinfo with its `@`. -/
theorem hostLoop_userinfo {x : Bytes} (h : ∀ ch ∈ x, isUserinfoChar ch = true) (u : HttpParserUrl) (i : Nat)
    (rest : Bytes) : hostLoop .s_http_userinfo_start u i (x ++ chr '@' :: rest) =
      hostLoop .s_http_host_start (if x.isEmpty then u else u.set .UF_USERINFO i x.length) (i + x.length + 1) rest := by
  cases x with
  | nil => rfl
  | cons ch bs =>
    obtain ⟨hch, hbs⟩ := List.forall_mem_cons.mp h
    rw [hostLoop_piece ((http_parse_host_chars ch).1 hch).2.1 (by decide) rfl (fun _ _ => rfl)
      (fun c hc => ((http_parse_host_chars c).1 (hbs c hc)).2.2),
      hostLoop_step .s_http_host_start (by decide) (by decide)]
    rfl

/-- The state in which the loop begins. -/
def hostStart (found_at : Bool) : HostState := if found_at then .s_http_userinfo_start else .s_http_host_start

/-- The parse of the host begins alive. -/
theorem hostStart_ne_dead (found_at : Bool) : hostStart found_at ≠ .s_http_host_dead := by
  cases found_at <;> decide

/-- The states in which an authority may end. -/
def HostEnd (st : HostState) : Prop := st = .s_http_host ∨ st = .s_http_host_v6_end ∨ st = .s_http_host_port

namespace Authority

variable {a : Authority} {u : HttpParserUrl} {off : Nat}

/-- The host and the port. -/
theorem hostLoop_hostPort (h : a.Valid) (hu : hostField.hostLen u = 0) (off : Nat) :
    ∃ st, HostEnd st ∧ hostLoop .s_http_host_start u (off + a.userinfoText.length) (a.hostText ++ a.portText) =
      some (st, a.setPort off (u.set .UF_HOST (a.hostOff off) a.host.length)) := by
  -- behind the host there is nothing or a port
  have hport : ∀ st v, (st = .s_http_host ∨ st = .s_http_host_v6_end) →
      ∃ st', HostEnd st' ∧ hostLoop st v (off + a.userinfoText.length + a.hostText.length) a.portText =
        some (st', a.setPort off v) := by
    intro st v hst
    rw [portText, setPort]
    cases hp : a.port with
    | none => exact ⟨st, hst.imp_right .inl, rfl⟩
    | some d =>
      obtain ⟨hne, hd⟩ := h.port d hp
      have hcolon : http_parse_host_char st (chr ':') = .s_http_host_port_start := by
        rcases hst with rfl | rfl <;> decide
      exact ⟨.s_http_host_port, .inr (.inr rfl), hostLoop_port hcolon hne hd⟩
  have hhost := h.host
  cases hb : a.bracketed with
  | false =>
    rw [hb, if_neg Bool.false_ne_true] at hhost
    have htext : a.hostText = a.host := by rw [hostText, hb, if_neg Bool.false_ne_true]
    have hoff : a.hostOff off = off + a.userinfoText.length := by rw [hostOff, hb]; rfl
    obtain ⟨st, hst, hloop⟩ := hport .s_http_host (u.set .UF_HOST (a.hostOff off) a.host.length) (.inl rfl)
    refine ⟨st, hst, ?_⟩
    rw [htext] at hloop ⊢
    rw [hostLoop_plain hhost.1 hhost.2 hu, ← hoff, ← hloop, hoff]
  | true =>
    rw [hb, if_pos rfl] at hhost
    have htext : a.hostText = chr '[' :: a.host ++ [chr ']'] := by rw [hostText, hb, if_pos rfl]
    have hoff : a.hostOff off = off + a.userinfoText.length + 1 := by rw [hostOff, hb]; rfl
    have hlen : off + a.userinfoText.length + a.host.length + 2 =
        off + a.userinfoText.length + a.hostText.length := by
      rw [htext, List.length_append, List.length_cons, List.length_singleton]
      omega
    obtain ⟨st, hst, hloop⟩ := hport .s_http_host_v6_end (u.set .UF_HOST (a.hostOff off) a.host.length) (.inr rfl)
    refine ⟨st, hst, ?_⟩
    rw [← hloop, ← hlen, htext, hostLoop_brackets hhost hu, hoff]

/-- **The loop over an authority.** -/
theorem hostLoop_text (h : a.Valid) (hu : hostField.hostLen u = 0) :
    ∃ st, HostEnd st ∧ hostLoop (hostStart a.userinfo.isSome) u off a.text = some (st, a.fields off u) := by
  cases hx : a.userinfo with
  | none =>
    have htext : a.userinfoText = [] := by rw [userinfoText, hx]; rfl
    have hloop := hostLoop_hostPort h hu off
    rw [htext, List.length_nil, Nat.add_zero] at hloop
    rw [text, htext, fields, setUserinfo, hx]
    exact hloop
  | some x =>
    have htext : a.userinfoText = x ++ [chr '@'] := by rw [userinfoText, hx]; rfl
    have hset : a.setUserinfo off u = if x.isEmpty then u else u.set .UF_USERINFO off x.length := by
      rw [setUserinfo, hx]
      rfl
    have hu' : hostField.hostLen (a.setUserinfo off u) = 0 := by
      rw [hset]
      split
      · exact hu
      · exact hu
    have hlen : off + x.length + 1 = off + a.userinfoText.length := by
      rw [htext, List.length_append, List.length_singleton, Nat.add_assoc]
    have hshape : a.text = x ++ chr '@' :: (a.hostText ++ a.portText) := by
      rw [text, htext, List.append_assoc]
      rfl
    have hloop := hostLoop_hostPort h hu' off
    rw [hshape, fields]
    show ∃ st, HostEnd st ∧ hostLoop .s_http_userinfo_start _ _ _ = _
    rw [hostLoop_userinfo (h.userinfo x hx), ← hset, hlen]
    exact hloop

end Authority

/-! ### What the loop takes -/

/-- The characters that a state takes. -/
theorem http_parse_host_char_ne_dead (ch : UInt8) :
    (http_parse_host_char .s_http_userinfo_start ch ≠ .s_http_host_dead → isUserinfoChar ch = true ∨ ch = chr '@') ∧
    (http_parse_host_char .s_http_userinfo ch ≠ .s_http_host_dead → isUserinfoChar ch = true ∨ ch = chr '@') ∧
    (http_parse_host_char .s_http_host_start ch ≠ .s_http_host_dead → isHostChar ch = true ∨ ch = chr '[') ∧
    (http_parse_host_char .s_http_host ch ≠ .s_http_host_dead → isHostChar ch = true ∨ ch = chr ':') ∧
    (http_parse_host_char .s_http_host_v6_start ch ≠ .s_http_host_dead → isV6Char ch = true) ∧
    (http_parse_host_char .s_http_host_v6 ch ≠ .s_http_host_dead →
      isV6Char ch = true ∨ ch = chr ']' ∨ ch = chr '%') ∧
    (http_parse_host_char .s_http_host_v6_zone_start ch ≠ .s_http_host_dead → isZoneChar ch = true) ∧
    (http_parse_host_char .s_http_host_v6_zone ch ≠ .s_http_host_dead → isZoneChar ch = true ∨ ch = chr ']') ∧
    (http_parse_host_char .s_http_host_v6_end ch ≠ .s_http_host_dead → ch = chr ':') ∧
    (http_parse_host_char .s_http_host_port_start ch ≠ .s_http_host_dead → isNum ch = true) ∧
    (http_parse_host_char .s_http_host_port ch ≠ .s_http_host_dead → isNum ch = true) := by
  revert ch
  exact forall_byte (by decide +kernel)

/-- A dead parse of the host stays dead. -/
theorem http_parse_host_char_dead (ch : UInt8) :
    http_parse_host_char .s_http_host_dead ch = .s_http_host_dead := rfl

/-- The state the loop ends in. -/
theorem hostLoop_state {st e : HostState} {u v : HttpParserUrl} {i : Nat} {bs : Bytes} (hst : st ≠ .s_http_host_dead)
    (h : hostLoop st u i bs = some (e, v)) : bs.foldl http_parse_host_char st = e ∧ e ≠ .s_http_host_dead := by
  induction bs generalizing st u i with
  | nil =>
    obtain ⟨rfl, -⟩ := Prod.mk.inj (Option.some.inj h)
    exact ⟨rfl, hst⟩
  | cons ch bs ih =>
    rw [hostLoop] at h
    split at h
    · cases h
    · rename_i hne
      exact ih hne h

/-- A state the host may end in is alive. -/
theorem HostEnd.ne_dead {e : HostState} (h : HostEnd e) : e ≠ .s_http_host_dead := by
  rcases h with rfl | rfl | rfl <;> decide

/-- Digits end in a port. -/
theorem exists_digits {bs : Bytes} (h : HostEnd (bs.foldl http_parse_host_char .s_http_host_port_start)) :
    bs ≠ [] ∧ ∀ ch ∈ bs, isNum ch = true := by
  rcases bs with _ | ⟨ch, bs⟩
  · rcases h with h | h | h <;> cases h
  have hch : isNum ch = true := (http_parse_host_char_ne_dead ch).2.2.2.2.2.2.2.2.2.1
    (step_ne_of_foldl_ne http_parse_host_char_dead h.ne_dead)
  rw [List.foldl_cons, ((http_parse_host_chars ch).2.2.2.2 hch).1] at h
  have hstay : ∀ c, isNum c = true → http_parse_host_char .s_http_host_port c = .s_http_host_port :=
    fun c hc => ((http_parse_host_chars c).2.2.2.2 hc).2
  obtain ⟨a, b, rfl, ha, hb, hrun⟩ := exists_stay hstay bs
  refine ⟨List.cons_ne_nil _ _, List.forall_mem_cons.mpr ⟨hch, ?_⟩⟩
  rcases hb with rfl | ⟨c, t, rfl, hc⟩
  · rwa [List.append_nil]
  · rw [hrun] at h
    have hnum := (http_parse_host_char_ne_dead c).2.2.2.2.2.2.2.2.2.2
      (step_ne_of_foldl_ne http_parse_host_char_dead h.ne_dead)
    exact absurd hnum (by rw [hc]; decide)

/-- Behind a host there is nothing or a port. -/
theorem exists_port {st : HostState} (hst : st = .s_http_host ∨ st = .s_http_host_v6_end) {bs : Bytes}
    (hhead : ∀ ch t, bs = ch :: t → http_parse_host_char st ch ≠ .s_http_host_dead → ch = chr ':')
    (h : HostEnd (bs.foldl http_parse_host_char st)) :
    ∃ port : Option Bytes, bs = (port.map fun d => chr ':' :: d).getD [] ∧
      ∀ d, port = some d → d ≠ [] ∧ ∀ ch ∈ d, isNum ch = true := by
  rcases bs with _ | ⟨ch, bs⟩
  · exact ⟨none, rfl, nofun⟩
  obtain rfl := hhead ch bs rfl (step_ne_of_foldl_ne http_parse_host_char_dead h.ne_dead)
  have hcolon : http_parse_host_char st (chr ':') = .s_http_host_port_start := by
    rcases hst with rfl | rfl <;> decide
  rw [List.foldl_cons, hcolon] at h
  refine ⟨some bs, rfl, fun d hd => ?_⟩
  obtain rfl := Option.some.inj hd
  exact exists_digits h

/-- Nothing or a port behind the brackets. -/
theorem exists_port_v6 {bs : Bytes} (h : HostEnd (bs.foldl http_parse_host_char .s_http_host_v6_end)) :
    ∃ port : Option Bytes, bs = (port.map fun d => chr ':' :: d).getD [] ∧
      ∀ d, port = some d → d ≠ [] ∧ ∀ ch ∈ d, isNum ch = true :=
  exists_port (.inr rfl) (fun ch _ _ hne => (http_parse_host_char_ne_dead ch).2.2.2.2.2.2.2.2.1 hne) h

/-- Behind an address in brackets there is perhaps a zone, and then the closing bracket. -/
theorem exists_zone {bs : Bytes} (hhead : ∀ ch t, bs = ch :: t → isV6Char ch = false)
    (h : HostEnd (bs.foldl http_parse_host_char .s_http_host_v6)) :
    ∃ zone t, bs = zone ++ chr ']' :: t ∧ IsZone zone ∧ HostEnd (t.foldl http_parse_host_char .s_http_host_v6_end) := by
  rcases bs with _ | ⟨ch, bs⟩
  · rcases h with h | h | h <;> cases h
  have hch := (http_parse_host_char_ne_dead ch).2.2.2.2.2.1 (step_ne_of_foldl_ne http_parse_host_char_dead h.ne_dead)
  rw [hhead ch bs rfl] at hch
  rcases hch.resolve_left Bool.false_ne_true with rfl | rfl
  · exact ⟨[], bs, rfl, .inl rfl, h⟩
  · -- a zone: at least one character, and then the bracket
    have hzone : http_parse_host_char .s_http_host_v6 (chr '%') = .s_http_host_v6_zone_start := by decide
    rw [List.foldl_cons, hzone] at h
    rcases bs with _ | ⟨c, bs⟩
    · rcases h with h | h | h <;> cases h
    have hc := (http_parse_host_char_ne_dead c).2.2.2.2.2.2.1 (step_ne_of_foldl_ne http_parse_host_char_dead h.ne_dead)
    rw [List.foldl_cons, ((http_parse_host_chars c).2.2.2.1 hc).1] at h
    have hstay : ∀ d, isZoneChar d = true → http_parse_host_char .s_http_host_v6_zone d = .s_http_host_v6_zone :=
      fun d hd => ((http_parse_host_chars d).2.2.2.1 hd).2
    obtain ⟨z, b, rfl, hz, hb, hrun⟩ := exists_stay hstay bs
    rw [hrun] at h
    rcases hb with rfl | ⟨d, t, rfl, hd⟩
    · rcases h with h | h | h <;> cases h
    · have hclose := (http_parse_host_char_ne_dead d).2.2.2.2.2.2.2.1
        (step_ne_of_foldl_ne http_parse_host_char_dead h.ne_dead)
      rw [hd] at hclose
      obtain rfl := hclose.resolve_left Bool.false_ne_true
      exact ⟨chr '%' :: c :: z, t, rfl, .inr ⟨c :: z, rfl, List.cons_ne_nil _ _, List.forall_mem_cons.mpr ⟨hc, hz⟩⟩, h⟩

/-- **A host and perhaps a port.** -/
theorem exists_hostPort {bs : Bytes} (h : HostEnd (bs.foldl http_parse_host_char .s_http_host_start)) :
    ∃ a : Authority, a.userinfo = none ∧ a.Valid ∧ bs = a.hostText ++ a.portText := by
  rcases bs with _ | ⟨ch, bs⟩
  · rcases h with h | h | h <;> cases h
  rcases (http_parse_host_char_ne_dead ch).2.2.1 (step_ne_of_foldl_ne http_parse_host_char_dead h.ne_dead)
    with hch | rfl
  · rw [List.foldl_cons, ((http_parse_host_chars ch).2.1 hch).1] at h
    have hstay : ∀ c, isHostChar c = true → http_parse_host_char .s_http_host c = .s_http_host :=
      fun c hc => ((http_parse_host_chars c).2.1 hc).2
    obtain ⟨host, b, rfl, hhost, hb, hrun⟩ := exists_stay hstay bs
    rw [hrun] at h
    have hhead : ∀ c t, b = c :: t → http_parse_host_char .s_http_host c ≠ .s_http_host_dead → c = chr ':' := by
      rintro c t rfl hne
      obtain ⟨d, s, hds, hd⟩ := hb.resolve_left (List.cons_ne_nil c t)
      obtain ⟨rfl, -⟩ := List.cons.inj hds
      have hc := (http_parse_host_char_ne_dead c).2.2.2.1 hne
      rw [hd] at hc
      exact hc.resolve_left Bool.false_ne_true
    obtain ⟨port, rfl, hport⟩ := exists_port (.inl rfl) hhead h
    refine ⟨⟨none, false, ch :: host, port⟩, rfl, ⟨nofun, ?_, hport⟩, rfl⟩
    exact ⟨List.cons_ne_nil _ _, List.forall_mem_cons.mpr ⟨hch, hhost⟩⟩
  · have hopen : http_parse_host_char .s_http_host_start (chr '[') = .s_http_host_v6_start := by decide
    rw [List.foldl_cons, hopen] at h
    rcases bs with _ | ⟨c, bs⟩
    · rcases h with h | h | h <;> cases h
    have hc := (http_parse_host_char_ne_dead c).2.2.2.2.1 (step_ne_of_foldl_ne http_parse_host_char_dead h.ne_dead)
    rw [List.foldl_cons, ((http_parse_host_chars c).2.2.1 hc).1] at h
    have hstay : ∀ d, isV6Char d = true → http_parse_host_char .s_http_host_v6 d = .s_http_host_v6 :=
      fun d hd => ((http_parse_host_chars d).2.2.1 hd).2
    obtain ⟨addr, b, rfl, haddr, hb, hrun⟩ := exists_stay hstay bs
    rw [hrun] at h
    have hhead : ∀ d t, b = d :: t → isV6Char d = false := by
      rintro d t rfl
      obtain ⟨d', s, hds, hd⟩ := hb.resolve_left (List.cons_ne_nil d t)
      obtain ⟨rfl, -⟩ := List.cons.inj hds
      exact hd
    obtain ⟨zone, t, rfl, hzone, hend⟩ := exists_zone hhead h
    obtain ⟨port, rfl, hport⟩ := exists_port_v6 hend
    refine ⟨⟨none, true, c :: addr ++ zone, port⟩, rfl, ⟨nofun, ?_, hport⟩, ?_⟩
    · exact ⟨c :: addr, zone, rfl, List.cons_ne_nil _ _, List.forall_mem_cons.mpr ⟨hc, haddr⟩, hzone⟩
    · simp [Authority.hostText, Authority.portText]

/-- **What the loop takes is an authority**, with a userinfo exactly if it begins
in the state for one. -/
theorem exists_authority {found_at : Bool} {bs : Bytes}
    (h : HostEnd (bs.foldl http_parse_host_char (hostStart found_at))) :
    ∃ a : Authority, a.userinfo.isSome = found_at ∧ a.Valid ∧ bs = a.text := by
  cases found_at with
  | false =>
    obtain ⟨a, ha, hv, hbs⟩ := exists_hostPort h
    exact ⟨a, by rw [ha]; rfl, hv, by rw [hbs, Authority.text, Authority.userinfoText, ha]; rfl⟩
  | true =>
    -- the two states of a userinfo take the same characters
    have hsame : ∀ bs : Bytes, HostEnd (bs.foldl http_parse_host_char .s_http_userinfo_start) →
        HostEnd (bs.foldl http_parse_host_char .s_http_userinfo) := by
      rintro (_ | ⟨ch, bs⟩) hend
      · rcases hend with h | h | h <;> cases h
      · exact hend
    have hstay : ∀ c, isUserinfoChar c = true → http_parse_host_char .s_http_userinfo c = .s_http_userinfo :=
      fun c hc => ((http_parse_host_chars c).1 hc).2.2
    obtain ⟨x, b, rfl, hx, hb, hrun⟩ := exists_stay hstay bs
    have hend := hsame _ h
    rw [hrun] at hend
    rcases hb with rfl | ⟨c, t, rfl, hc⟩
    · rcases hend with h | h | h <;> cases h
    · have hat := (http_parse_host_char_ne_dead c).2.1
        (step_ne_of_foldl_ne http_parse_host_char_dead hend.ne_dead)
      rw [hc] at hat
      obtain rfl := hat.resolve_left Bool.false_ne_true
      have hstart : http_parse_host_char .s_http_userinfo (chr '@') = .s_http_host_start := by decide
      rw [List.foldl_cons, hstart] at hend
      obtain ⟨a, -, hv, rfl⟩ := exists_hostPort hend
      refine ⟨{ a with userinfo := some x }, rfl, ⟨fun y hy => ?_, hv.host, hv.port⟩, ?_⟩
      · obtain rfl := Option.some.inj hy
        exact hx
      · simp [Authority.text, Authority.userinfoText, Authority.hostText, Authority.portText]

end HttpParsing
end Wuchat
