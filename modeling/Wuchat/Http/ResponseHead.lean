/-
# Reading back the head of a response

What `HttpResponseParser` makes of a status line and of the empty line after the headers, as
`HttpResponse::dump` prints them.  As with header lines (`Wuchat.Http.HeaderLines`) the lemmas
are exact: the status line is taken exactly if its numbers have few enough digits, and then
the parser and the response it fills are known.
-/

import Wuchat.Http.HeaderLines

namespace Wuchat
namespace Http

open Foundation HttpParsing

/-- A parser that has read the first byte of a response. -/
def View.fresh : View := { view (http_parser_init .HTTP_RESPONSE) with content_length := ULLONG_MAX }

variable {v : View} {t : Target HttpResponse} {d : HttpResponse}

/-! ### Status lines -/

/-- `HTTP/`. -/
theorem scans_protocol : Scans httpParserSettings2
    (Here .s_start_res (view (http_parser_init .HTTP_RESPONSE)) noMarks t) (str "HTTP/") True
    (Here .s_res_http_major .fresh noMarks t) := by
  have hH : Scans httpParserSettings2
      (Here .s_start_res (view (http_parser_init .HTTP_RESPONSE)) noMarks t) [chr 'H']
      True (Here .s_res_H .fresh noMarks t) := by
    refine scans_byte rfl fun q hs hv => ?_
    unfold reexecute
    rw [hs]
    simp only [view, View.mk.injEq] at hv
    refine ⟨trivial, rfl, rfl, ?_, rfl, rfl⟩
    simp only [view, View.fresh, View.mk.injEq, hv]
    decide
  rw [show str "HTTP/" = [chr 'H'] ++
    ([chr 'T'] ++ ([chr 'T'] ++ ([chr 'P'] ++ [chr '/']))) from by decide]
  refine hH.then ((scans_expect 'T' .s_res_HT rfl ?_).then
    ((scans_expect 'T' .s_res_HTT rfl ?_).then
    ((scans_expect 'P' .s_res_HTTP rfl ?_).then (scans_expect '/' .s_res_http_major rfl ?_))))
  all_goals
    intro ch q hs
    unfold reexecute
    rw [hs]

/-- The major version is one digit. -/
theorem scans_major (m : Nat) : Scans httpParserSettings2 (Here .s_res_http_major v noMarks t)
    (decimal m ++ str ".") (m ≤ 9) (Here .s_res_http_minor { v with http_major := m } noMarks t) :=
  scans_versionNumber .s_res_http_dot '.'
    (fun d q => { q with http_major := d, state := .s_res_http_dot })
    (fun d v => { v with http_major := d }) rfl rfl
    (fun ch q hs => by unfold reexecute; rw [hs]) (fun d q => ⟨rfl, rfl, rfl⟩)
    (fun ch q hs => by unfold reexecute; rw [hs]) (by decide) m

/-- So is the minor one. -/
theorem scans_minor (m : Nat) : Scans httpParserSettings2 (Here .s_res_http_minor v noMarks t)
    (decimal m ++ str " ") (m ≤ 9)
    (Here .s_res_first_status_code { v with http_minor := m } noMarks t) :=
  scans_versionNumber .s_res_http_end ' '
    (fun d q => { q with http_minor := d, state := .s_res_http_end })
    (fun d v => { v with http_minor := d }) rfl rfl
    (fun ch q hs => by unfold reexecute; rw [hs]) (fun d q => ⟨rfl, rfl, rfl⟩)
    (fun ch q hs => by unfold reexecute; rw [hs]) (by decide) m

/-- The digits of a status after the first. -/
theorem scans_statusDigits {ds : Bytes} (hall : ∀ ch ∈ ds, isNum ch = true) {a : Nat} (ha : a ≤ 999) :
    Scans httpParserSettings2 (Here .s_res_status_code { v with status_code := a } noMarks t) ds
      (digitsFrom a ds ≤ 999) (Here .s_res_status_code
        { v with status_code := digitsFrom a ds } noMarks t) := by
  induction ds generalizing a with
  | nil => exact .nil ha
  | cons ch ds ih =>
    have hnum := hall ch List.mem_cons_self
    have hdigit := digit_le hnum
    have hmod : (a * 10 + (ch.toNat - 48)) % 2 ^ 16 = 10 * a + (ch.toNat - 48) := by omega
    have hbyte : ∀ q, q.state = .s_res_status_code → view q = { v with status_code := a } →
        reexecute ch q = if 999 < 10 * a + (ch.toNat - 48)
          then fail .INVALID_STATUS { q with status_code := 10 * a + (ch.toNat - 48) }
          else .next { q with status_code := 10 * a + (ch.toNat - 48) } .outer := by
      intro q hs hv
      have hcode : q.status_code = a := congrArg View.status_code hv
      have hcase : reexecute ch q = resStatusCode ch q := by
        unfold reexecute
        rw [hs]
      rw [hcase, resStatusCode, if_pos hnum]
      dsimp only
      rw [hcode, hmod]
    rw [digitsFrom_cons]
    by_cases hle : 10 * a + (ch.toNat - 48) ≤ 999
    · refine .cons (scans_byte rfl fun q hs hv => ?_)
        (ih (fun c hc => hall c (List.mem_cons_of_mem _ hc)) hle)
      rw [hbyte q hs hv, if_neg (by omega)]
      exact ⟨trivial, rfl, hs,
        congrArg (fun w : View => { w with status_code := 10 * a + (ch.toNat - 48) }) hv, rfl, rfl⟩
    · have hbad : Scans httpParserSettings2
          (Here .s_res_status_code { v with status_code := a } noMarks t) [ch] False
          (Here .s_res_status_code v noMarks t) := by
        refine scans_byte rfl fun q hs hv => ?_
        rw [hbyte q hs hv, if_pos (by omega)]
        exact exactly_fail (by decide) id
      refine (hbad.refuse ds).congr ⟨False.elim, fun h => hle ?_⟩
      exact Nat.le_trans (le_digitsFrom _ ds) h

/-- **The status code** and the space after it. -/
theorem scans_status (n : Nat) : Scans httpParserSettings2 (Here .s_res_first_status_code v noMarks t)
    (decimal n ++ str " ") (n ≤ 999)
    (Here .s_res_status_start { v with status_code := n } noMarks t) := by
  obtain ⟨ch, ds, hdec⟩ := List.exists_cons_of_ne_nil (decimal_ne_nil n)
  have hall : ∀ c ∈ ch :: ds, isNum c = true := fun c hc => isNum_of_mem_decimal (hdec ▸ hc)
  have hnum := hall ch List.mem_cons_self
  have hval : digitsFrom (ch.toNat - 48) ds = n := by
    rw [← digitsFrom_decimal n, hdec, digitsFrom_cons, Nat.mul_zero, Nat.zero_add]
  have hfirst : Scans httpParserSettings2 (Here .s_res_first_status_code v noMarks t) [ch] True
      (Here .s_res_status_code { v with status_code := ch.toNat - 48 } noMarks t) := by
    refine scans_byte rfl fun q hs hv => ?_
    unfold reexecute
    rw [hs]
    dsimp only
    rw [resFirstStatusCode, if_pos hnum]
    exact ⟨trivial, rfl, rfl, congrArg
      (fun w : View => { w with status_code := ch.toNat - 48 }) hv, rfl, rfl⟩
  have hdigits := scans_statusDigits (v := v) (t := t)
    (fun c hc => hall c (List.mem_cons_of_mem _ hc))
    (Nat.le_trans (digit_le hnum) (by decide : 9 ≤ 999))
  have hspace : Scans httpParserSettings2
      (Here .s_res_status_code { v with status_code := n } noMarks t) (str " ") True
      (Here .s_res_status_start { v with status_code := n } noMarks t) := by
    rw [show str " " = [chr ' '] from by decide]
    refine scans_goto rfl fun q hs => ?_
    unfold reexecute
    rw [hs]
    dsimp only
    rw [resStatusCode, if_neg (by decide), if_pos rfl]
  rw [hval] at hdigits
  rw [hdec]
  exact (hfirst.then hdigits).append (fun _ => hspace) |>.congr ⟨And.left, fun h => ⟨h, trivial⟩⟩

/-- **The reason phrase** and the end of the line: a phrase without line breaks is taken whatever it
is. -/
theorem scans_reason {reason : Bytes} (hne : reason ≠ []) (hcr : CR ∉ reason) (hlf : LF ∉ reason) :
    Scans httpParserSettings2 (Here .s_res_status_start v noMarks t) (reason ++ crlf) True
      (Here .s_header_field_start v noMarks
        { t with data := { t.data with status := v.status_code } }) := by
  obtain ⟨ch, rest, rfl⟩ := List.exists_cons_of_ne_nil hne
  have hfirst : Scans httpParserSettings2 (Here .s_res_status_start v noMarks t) [ch] True
      (Here .s_res_status v (onlyMark .status [ch]) t) := by
    refine scans_byte rfl fun q hs hv => ?_
    unfold reexecute
    rw [hs]
    dsimp only
    rw [resStatusStart, if_neg (by rintro (rfl | rfl) <;> simp at hcr hlf)]
    exact ⟨trivial, rfl, rfl, hv, rfl, by simp⟩
  have hrest : ∀ (rest bs : Bytes), CR ∉ rest → LF ∉ rest → Scans httpParserSettings2
      (Here .s_res_status v (onlyMark .status bs) t) rest True
      (Here .s_res_status v (onlyMark .status (bs ++ rest)) t) := by
    intro rest
    induction rest with
    | nil =>
      intro bs _ _
      rw [List.append_nil]
      exact .nil trivial
    | cons c rest ih =>
      intro bs hcr hlf
      rw [List.mem_cons, not_or] at hcr hlf
      refine .cons (scans_byte rfl fun q hs hv => ?_)
        (List.append_cons bs c rest ▸ ih (bs ++ [c]) hcr.2 hlf.2)
      unfold reexecute
      rw [hs]
      dsimp only
      rw [resStatus, if_neg (Ne.symm hcr.1), if_neg (Ne.symm hlf.1)]
      exact ⟨trivial, rfl, hs, hv, rfl, by simp⟩
  have hend : Scans httpParserSettings2 (Here .s_res_status v (onlyMark .status (ch :: rest)) t)
      [CR] True
      (Here .s_res_line_almost_done v noMarks
        { t with data := { t.data with status := v.status_code } }) := by
    refine scans_byte rfl fun q hs hv => ?_
    have hcode : q.status_code = v.status_code := congrArg View.status_code hv
    unfold reexecute
    rw [hs]
    dsimp only
    rw [resStatus, if_pos rfl]
    simp only [Prog.run, onlyMark_self, httpParserSettings2, on_response_data_cb, ne_eq,
      not_true_eq_false, if_false,
      setMark_onlyMark, push_noMarks]
    exact ⟨trivial, rfl, rfl, hv, rfl, by rw [hcode]⟩
  have hnl : Scans httpParserSettings2
      (Here .s_res_line_almost_done v noMarks
        { t with data := { t.data with status := v.status_code } }) [LF] True
      (Here .s_header_field_start v noMarks
        { t with data := { t.data with status := v.status_code } }) := by
    refine scans_goto rfl fun q hs => ?_
    unfold reexecute
    rw [hs]
    rfl
  rw [List.mem_cons, not_or] at hcr hlf
  have hline := hfirst.then (hrest rest [ch] hcr.2 hlf.2)
  rw [show crlf = [CR] ++ [LF] from by decide]
  exact hline.then (hend.then hnl)

/-! ### The end of the head, and the body -/

/-- A response without a transfer encoding, and not for another protocol. -/
def View.Simple (v : View) : Prop :=
  v.type = .HTTP_RESPONSE ∧ v.http_errno = .OK ∧ v.method ≠ .CONNECT ∧ v.chunked = false ∧
    v.trailing = false ∧
    v.upgrade = false ∧ v.skipbody = false

/-- Where the body of such a response ends: after the bytes of its length, or with the connection.
-/
def View.bodyState (v : View) : State :=
  if v.content_length = ULLONG_MAX then .s_body_identity_eof else .s_body_identity

/-- The response when its headers are complete. -/
def View.complete (v : View) (d : HttpResponse) : HttpResponse :=
  { d with version := v.http_major * 16 + v.http_minor, status := v.status_code }

/-- Before the body, with the response `d` so far. -/
def AtBody (v : View) (d : HttpResponse) : Point (Target HttpResponse) := fun p loop l =>
  loop = .outer ∧ p.state = v.bodyState ∧ p.http_errno = .OK ∧ p.upgrade = false ∧
    p.content_length = v.content_length ∧ ∃ filed, l = ⟨noMarks, ⟨d, false, filed⟩⟩

/-- The work on the `LF` of the empty line. -/
theorem headersDone_simple {q : HttpParser} (hq : (view q).Simple) (hup : q.upgrade = false)
    (hlength : q.content_length ≠ 0) (hstatus : q.status_code / 100 ≠ 1 ∧ q.status_code ≠ 204 ∧
      q.status_code ≠ 304) :
    headersDone LF q = .next { q with nread := 0, state := (view q).bodyState } .outer := by
  obtain ⟨htype, -, -, hchunked, -, -, hskip⟩ := hq
  have hresponse : ¬q.type = .HTTP_REQUEST := by
    rw [show q.type = .HTTP_RESPONSE from htype]
    nofun
  have hnone : ¬(q.status_code / 100 = 1 ∨ q.status_code = 204 ∨ q.status_code = 304 ∨
      q.flags.skipbody = true) := by
    rw [show q.flags.skipbody = false from hskip, not_or, not_or, not_or]
    exact ⟨hstatus.1, hstatus.2.1, hstatus.2.2, Bool.false_ne_true⟩
  rw [headersDone_eq hup hskip hchunked hlength]
  by_cases h : q.content_length = ULLONG_MAX
  · have hstate : (view q).bodyState = .s_body_identity_eof := if_pos h
    have hopen : ¬(q.flags.chunked = true ∨ q.content_length ≠ ULLONG_MAX) := by
      rw [show q.flags.chunked = false from hchunked, not_or]
      exact ⟨Bool.false_ne_true, not_not_intro h⟩
    have hneeds : http_message_needs_eof { q with nread := 0 } = true := by
      unfold http_message_needs_eof
      rw [if_neg hresponse, if_neg hnone, if_neg hopen]
    rw [if_neg (not_not_intro h), hneeds, hstate]
    rfl
  · have hstate : (view q).bodyState = .s_body_identity := if_neg h
    rw [if_pos h, hstate]
    rfl

/-- **The empty line after the headers.** -/
theorem scans_empty (hv : v.Simple) (hlength : v.content_length ≠ 0)
    (hstatus : v.status_code / 100 ≠ 1 ∧ v.status_code ≠ 204 ∧ v.status_code ≠ 304) :
    Scans httpParserSettings2 (AtLine v d) crlf True fun _ => AtBody v (v.complete d) := by
  obtain ⟨-, herr, hmethod, hchunked, htrailing, hupgrade, -⟩ := id hv
  refine scans_emptyLine (fun _ _ => rfl) hmethod hchunked htrailing hupgrade fun q filed hqv hup => ?_
  subst hqv
  rw [headersDone_simple hv hup hlength hstatus]
  exact ⟨trivial, rfl, rfl, herr, hup, rfl, filed, rfl⟩

end Http
end Wuchat
