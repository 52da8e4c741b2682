/-
# Where a printed message ends

`recvRequest` and `recvResponse` return after the read with which their parser has finished.
A printed message is finished by its last byte, not by an earlier one: before it the parser
stands behind the `CR` of the empty line, or within the body (`open_beforeLast`), and a
flag that is set stays set.  So the bytes of a request that the parser takes are one request
(`isRequest_dump`), and those of a response that it takes are one response
(`isResponse_dump`), which successive calls of `recvResponse` return one by one
(`recvResponse_pieces`).
-/

import Wuchat.Http.Connection
import Wuchat.Http.RequestDump

namespace Wuchat
namespace Http

open Foundation HttpParsing Streams

/-! ### A flag that stays -/

section Flag

variable {M : Type} {s : Settings (Target M)} {p q : HttpParser} {l l' : Locals (Target M)}

/-- The callbacks leave a set flag, and those for data leave a clear one too. -/
structure Flags (s : Settings (Target M)) : Prop where
  steps : s.Steps fun t t' => t.finished = true → t'.finished = true
  data : ∀ m p bs t, (s.data m p bs t).1.finished = t.finished

/-- The flag of a request is set by `on_message_complete` alone. -/
theorem flags_request : Flags httpParserSettings1 where
  data m p bs t := by
    cases m with
    | url =>
      show (on_request_url_cb bs t).1.finished = t.finished
      unfold on_request_url_cb
      split <;> rfl
    | _ => rfl
  steps :=
    { refl := fun _ h => h
      trans := fun h₁ h₂ h => h₂ (h₁ h)
      notify := fun n _ _ h => by cases n <;> first | exact h | rfl
      headersComplete := fun _ _ h => h
      data := fun m _ bs t h => by
        cases m with
        | url =>
          show (on_request_url_cb bs t).1.finished = true
          unfold on_request_url_cb
          split <;> exact h
        | _ => exact h }

/-- So is that of a response. -/
theorem flags_response : Flags httpParserSettings2 where
  data m _ _ _ := by cases m <;> rfl
  steps := HttpResponseParser.finished_steps

variable (hflags : Flags s)
include hflags

/-- A message that is complete stays so. -/
theorem Flags.runBytes {bs : Bytes} {loop loop' : Loop} (h : runBytes s bs p loop l = .next q loop' l')
    (hset : l.app.finished = true) : l'.app.finished = true := by
  induction bs generalizing p loop l with
  | nil =>
    cases h
    exact hset
  | cons ch rest ih =>
    have hstep : ((byteProg loop ch p).run s ch l).app.finished = true :=
      run_steps hflags.steps (byteProg loop ch p) l hset
    rw [HttpParsing.runBytes] at h
    cases hrun : (byteProg loop ch p).run s ch l with
    | next p' loop' l' =>
      rw [hrun] at h hstep
      exact ih h hstep
    | exit p' adv l' =>
      rw [hrun] at h
      cases h

/-- The marks told at the end of the data leave the flag. -/
theorem Flags.flushMarks (n : Nat) (ms : List Mark) : (flushMarks s n p ms l).app.finished = l.app.finished := by
  induction ms generalizing l with
  | nil => rfl
  | cons m ms ih =>
    unfold HttpParsing.flushMarks
    cases l.marks m with
    | none => exact ih
    | some bs =>
      dsimp only
      split
      · exact hflags.data m p bs l.app
      · exact ih.trans (hflags.data m p bs l.app)

/-- So does the end of the data. -/
theorem Flags.endOfData (n : Nat) (loop : Loop) : (endOfData s n p loop l).app.finished = l.app.finished := by
  cases loop with
  | outer => exact hflags.flushMarks n _
  | field k | value k _ =>
    dsimp only [HttpParsing.endOfData]
    split
    · rfl
    · exact hflags.flushMarks n _

/-- **A call on the first bytes of a run that has not finished** has not finished either. -/
theorem Flags.execute_take {data : Bytes} {t : Target M} (hp : p.http_errno = .OK)
    (hm : startMarks p.state = noMarks) {loop : Loop}
    (h : HttpParsing.runBytes s data p .outer ⟨noMarks, t⟩ = .next q loop l') (hopen : l'.app.finished = false)
    {k : Nat} (hne : data.take k ≠ []) : (http_parser_execute s p (data.take k) t).app.finished = false := by
  rw [execute_eq hp hm hne]
  rw [← List.take_append_drop k data, runBytes_append] at h
  cases hrun : HttpParsing.runBytes s (data.take k) p .outer ⟨noMarks, t⟩ with
  | exit p' adv l' =>
    rw [hrun] at h
    cases h
  | next p' loop' l' =>
    rw [hrun] at h
    rw [executeLoop_of_next hrun, hflags.endOfData, ← Bool.not_eq_true]
    intro hset
    rw [hflags.runBytes h hset] at hopen
    cases hopen

end Flag

/-! ### Before the last byte -/

section Last

variable {M : Type} {s : Settings (Target M)} {p : HttpParser} {l : Locals (Target M)} {v : View} {d : M}

/-- Bytes of a body that do not end it. -/
theorem runBytes_bodyPart {bs : Bytes} (hs : p.state = .s_body_identity) (hlt : bs.length < p.content_length) :
    ∃ q l', runBytes s bs p .outer l = .next q .outer l' ∧ l'.app = l.app := by
  induction bs generalizing p l with
  | nil => exact ⟨p, l, rfl, rfl⟩
  | cons ch rest ih =>
    have hbyte : byteProg .outer ch p = bodyIdentity p := by
      unfold byteProg reexecute
      rw [hs]
      rfl
    rw [List.length_cons] at hlt
    rw [runBytes, hbyte, bodyIdentity]
    simp only [Prog.run]
    rw [if_neg (by omega)]
    simp only [Prog.run]
    exact ih (p := { p with content_length := p.content_length - 1 }) (l := (l.mark .body).push ch) hs
      (by show rest.length < p.content_length - 1; omega)

/-- The `CR` of the empty line. -/
theorem scans_cr : Scans s (AtLine v d) [CR] True fun n p loop l =>
    ∃ filed, Here .s_headers_almost_done v noMarks ⟨d, false, filed⟩ n p loop l := by
  refine scans_atLine (by decide) fun q filed hqv => ?_
  exact ⟨trivial, filed, rfl, rfl, hqv, rfl, rfl⟩

/-- The empty line without its last byte, after what was taken before. -/
theorem runBytes_cr {P : Nat → Point (Target M)} {lines : Bytes} {C : Prop} (h : Scans s P lines C (AtLine v d))
    (hc : C) (hsize : lines.length + 2 ≤ maxHeaderSize) (hp : P 0 p .outer l) :
    ∃ q loop l', runBytes s (lines ++ [CR]) p .outer l = .next q loop l' ∧ l'.app.finished = false := by
  have hmax : maxHeaderSize < 2 ^ 32 := by decide
  have hlen : (lines ++ [CR]).length = lines.length + 1 := by simp
  have hscan := (h.append fun _ => scans_cr) 0 (Nat.zero_le _) (by omega) p .outer l hp
  cases hrun : runBytes s (lines ++ [CR]) p .outer l with
  | next q loop l' =>
    rw [hrun] at hscan
    obtain ⟨-, filed, -, -, -, -, rfl⟩ := hscan
    exact ⟨q, loop, _, rfl, rfl⟩
  | exit q adv l' =>
    rw [hrun] at hscan
    exact (hscan.1 ⟨by omega, hc, trivial⟩).elim

end Last

/-- The bytes before the last of `head ++ body`, when the head ends with an empty line. -/
theorem dropLast_message (lines body : Bytes) :
    (lines ++ crlf ++ body).dropLast = if body = [] then lines ++ [CR] else lines ++ crlf ++ body.dropLast := by
  have hcrlf : crlf = [CR] ++ [LF] := by decide
  by_cases h : body = []
  · rw [if_pos h, h, List.append_nil, hcrlf, ← List.append_assoc, List.dropLast_concat]
  · rw [if_neg h, List.dropLast_append_of_ne_nil h]

/-- The first bytes of a text are first bytes of what comes before its last one. -/
theorem take_dropLast {data : Bytes} {k : Nat} (hk : k < data.length) : data.dropLast.take k = data.take k := by
  rw [List.dropLast_eq_take, List.take_take, min_eq_left (by omega)]

/-! ### Requests -/

namespace HttpRequest

variable {r : HttpRequest}

/-- **Before its last byte a printed request is not finished.** -/
theorem open_beforeLast (h : Sendable r) (ht : Taken r) :
    ∃ q loop l', runBytes httpParserSettings1 r.dump.dropLast (http_parser_init .HTTP_REQUEST) .outer
      ⟨noMarks, start⟩ = .next q loop l' ∧ l'.app.finished = false := by
  have hsplit : r.dump = r.headLines ++ crlf ++ r.body := dump_eq r
  have hlen : r.headLines.length + 2 = r.headSize := by
    rw [← length_head r, show r.head = r.headLines ++ crlf from rfl, List.length_append]
    rfl
  have hsize := ht.size
  rw [hsplit, dropLast_message]
  by_cases hnil : r.body = []
  · rw [if_pos hnil]
    exact runBytes_cr (scans_headLines h) ⟨ht.method, ht.values, ht.length⟩ (by omega) ⟨rfl, rfl, rfl, rfl, rfl⟩
  · rw [if_neg hnil, show r.headLines ++ crlf = r.head from rfl]
    have hread := read_head h (Nat.lt_of_le_of_lt hsize (by decide))
    cases hrun : runBytes httpParserSettings1 r.head (http_parser_init .HTTP_REQUEST) .outer ⟨noMarks, start⟩ with
    | exit q adv l =>
      rw [hrun] at hread
      exact (hread.1 ht).elim
    | next q loop l =>
      rw [hrun] at hread
      obtain ⟨-, rfl, -, -, filed, rfl, hbody⟩ := hread
      have hview : r.headView =
          { r.lineView with contentlength := true, content_length := r.body.length } := if_neg (by simp [hnil])
      have hmax : r.headView.content_length ≠ ULLONG_MAX := by
        have hlength := ht.length
        have hval : ULLONG_MAX = 18446744073709551615 := by decide
        rw [hview]
        dsimp only
        omega
      obtain ⟨hs, hlength⟩ := hbody hmax
      have hpart : r.body.dropLast.length < q.content_length := by
        have := List.length_pos_iff.mpr hnil
        rw [hlength, hview, List.length_dropLast]
        dsimp only
        omega
      obtain ⟨q', l', hrest, happ⟩ := runBytes_bodyPart (s := httpParserSettings1)
        (l := ⟨noMarks, ⟨r.headData, decide (r.headView.content_length = ULLONG_MAX), filed⟩⟩) hs hpart
      rw [runBytes_append, hrun]
      exact ⟨q', .outer, l', hrest, by rw [happ]; exact decide_eq_false hmax⟩

/-- **A printed request is one request**: the parser takes it, and has finished after its last byte. -/
theorem isRequest_dump (h : Sendable r) (ht : Taken r) : IsRequest r.dump := by
  obtain ⟨q, filed, hexec⟩ := execute_of_reads h ht
  obtain ⟨q', loop, l', hrun, hopen⟩ := open_beforeLast h ht
  refine ⟨by rw [hexec], by rw [hexec], fun k hk => ?_⟩
  rw [wraps_request.target]
  by_cases hnil : r.dump.take k = []
  · rw [hnil]
    rfl
  · rw [← take_dropLast hk] at hnil ⊢
    exact flags_request.execute_take rfl startMarks_new hrun hopen hnil

end HttpRequest

/-! ### Responses -/

/-- **The bytes of one response**: a parser has no error on them, has finished after the last of them, not
before, and no other protocol follows. -/
structure IsResponse (bytes : Bytes) : Prop where
  ok : (HttpResponseParser.execute .new bytes).1.error = .OK
  finished : (HttpResponseParser.execute .new bytes).1.target.finished = true
  plain : (HttpResponseParser.execute .new bytes).1.parser.upgrade = false
  last : ∀ k < bytes.length, (HttpResponseParser.execute .new (bytes.take k)).1.target.finished = false

variable {r : HttpResponse}

/-- The parser stands before the body of a response that it takes. -/
theorem run_head (h : Sendable r) (hr : Readable r) : ∃ q filed,
    runBytes httpParserSettings2 (head r) (http_parser_init .HTTP_RESPONSE) .outer ⟨noMarks, start⟩ =
      .next q .outer ⟨noMarks, ⟨headData r, false, filed⟩⟩ ∧
      q.state = .s_body_identity ∧ q.content_length = r.body.length ∧ q.upgrade = false ∧ q.http_errno = .OK := by
  have hread := read_head h hr.reason.1 hr.reason.2 (Nat.lt_of_le_of_lt hr.size (by decide))
  cases hrun : runBytes httpParserSettings2 (head r)
    (http_parser_init .HTTP_RESPONSE) .outer ⟨noMarks, start⟩ with
  | exit q adv l =>
    rw [hrun] at hread
    exact (hread.1 ⟨hr.size, ⟨hr.version, hr.status⟩, hr.values, hr.length⟩).elim
  | next q loop l =>
    rw [hrun] at hread
    obtain ⟨-, rfl, hs, herr, hup, hlength, filed, rfl⟩ := hread
    have hview : headView r =
        { statusView r with contentlength := true, content_length := r.body.length } :=
      if_neg (by simp [hr.body])
    have hnum : (headView r).content_length = r.body.length := by rw [hview]
    have hmax : r.body.length ≠ ULLONG_MAX := by
      have := hr.length
      have hval : ULLONG_MAX = 18446744073709551615 := by decide
      omega
    refine ⟨q, filed, rfl, ?_, hlength.trans hnum, hup, herr⟩
    rw [hs, View.bodyState, if_neg (by rw [hnum]; exact hmax)]

/-- **A printed response is one response.** -/
theorem isResponse_dump (h : Sendable r) (hr : Readable r) : IsResponse r.dump := by
  have hback := readBack_of_readable h hr
  obtain ⟨q, filed, hrun, hs, hlength, hup, herr⟩ := run_head h hr
  refine ⟨hback.error, hback.finished, ?_, fun k hk => ?_⟩
  · obtain ⟨q', hbody, herr', hup'⟩ := runBytes_body fills_response (m := [])
      (t := ⟨headData r, false, filed⟩) hr.body hs hlength hup (mark_noMarks .body _)
    have hall : runBytes httpParserSettings2 r.dump (http_parser_init .HTTP_RESPONSE) .outer ⟨noMarks, start⟩ =
        .next q' .outer ⟨noMarks, ⟨(headData r).appendBody r.body, true, filed⟩⟩ := by
      rw [dump_eq, runBytes_append, hrun]
      exact hbody
    rw [execute_of_next (dump_ne_nil r) hall (herr'.trans herr)]
    exact hup'
  · have hpart : r.body.dropLast.length < q.content_length := by
      have := List.length_pos_iff.mpr hr.body
      rw [hlength, List.length_dropLast]
      omega
    obtain ⟨q', l', hrest, happ⟩ := runBytes_bodyPart (s := httpParserSettings2)
      (l := ⟨noMarks, ⟨headData r, false, filed⟩⟩) hs hpart
    have hopen : runBytes httpParserSettings2 r.dump.dropLast (http_parser_init .HTTP_RESPONSE) .outer
        ⟨noMarks, start⟩ = .next q' .outer l' := by
      rw [show r.dump = headLines r ++ crlf ++ r.body from dump_eq r, dropLast_message, if_neg hr.body,
        show headLines r ++ crlf = head r from rfl, runBytes_append, hrun]
      exact hrest
    rw [wraps_response.target]
    by_cases hnil : r.dump.take k = []
    · rw [hnil]
      rfl
    · rw [← take_dropLast hk] at hnil ⊢
      exact flags_response.execute_take rfl startMarks_new hopen (by rw [happ]) hnil

section Turns

variable {pieces : List Bytes} (hpieces : ∀ data ∈ pieces, data ≠ [])
  (hclean : CleanCuts (http_parser_init .HTTP_RESPONSE) pieces) (hresp : IsResponse pieces.flatten)
include hpieces hclean hresp

omit hpieces hclean in
/-- A response has a read at least. -/
theorem IsResponse.ne_nil : pieces ≠ [] := by
  rintro rfl
  exact absurd hresp.finished (by decide)

/-- **The turns of `recvResponse` on the pieces of one response.** -/
theorem receiveLoop_pieces {size : Nat} {fuel k : Nat} {l l' : Link} (hk : k < pieces.length)
    (hfuel : pieces.length ≤ k + fuel) (hcuts : Cuts size l (pieces.drop k) l') :
    receiveLoop HttpResponseParser.execute id size fuel
        (feedAll HttpResponseParser.execute HttpResponseParser.new (pieces.take k)) [] l =
      .ok (some (HttpResponseParser.execute .new pieces.flatten).1.target.data) l' := by
  induction fuel generalizing k l with
  | zero => omega
  | succ fuel ih =>
    rw [List.drop_eq_getElem_cons hk] at hcuts
    cases hcuts with
    | @cons _ l₁ _ _ _ hread hne hrest =>
      have hok := wraps_response.feedAll_take_ok HttpResponseParser.execute_execute hpieces hclean hresp.ok
        hresp.ne_nil (k + 1)
      have hparsed := wraps_response.feedAll_parsed HttpResponseParser.execute_execute hpieces hclean
        httpParserSettings2_cuttable rfl hresp.ok hk (wraps_response.feedAll_plain
          HttpResponseParser.execute_execute hpieces hclean httpParserSettings2_cuttable rfl hresp.ok hresp.ne_nil
          hresp.plain hk)
      rw [← feedAll_next _ hk] at hok
      rw [receiveLoop_turn hread hne hok hparsed, feedAll_next _ hk,
        feedAll_take_succ HttpResponseParser.execute_execute hpieces hclean hk]
      rcases Nat.eq_or_lt_of_le hk with hlast | hmore
      · rw [show k + 1 = pieces.length from hlast, List.take_length, if_pos hresp.finished]
        rw [show k + 1 = pieces.length from hlast, List.drop_length] at hrest
        cases hrest
        rfl
      · have hdrop : (pieces.drop (k + 1)).flatten ≠ [] := by
          refine flatten_ne_nil (fun data h => hpieces data (List.mem_of_mem_drop h)) ?_
          exact List.ne_nil_of_length_pos (by rw [List.length_drop]; omega)
        have hsplit : pieces.flatten = (pieces.take (k + 1)).flatten ++ (pieces.drop (k + 1)).flatten := by
          rw [← List.flatten_append, List.take_append_drop]
        have hbefore := hresp.last (pieces.take (k + 1)).flatten.length (by
          rw [hsplit, List.length_append]
          exact Nat.lt_add_of_pos_right (List.length_pos_iff.mpr hdrop))
        rw [hsplit, List.take_left] at hbefore
        rw [hbefore, if_neg Bool.false_ne_true, ← feedAll_take_succ HttpResponseParser.execute_execute hpieces
          hclean hk]
        exact ih hmore (by omega) hrest

end Turns

/-- **A call of `recvResponse` on the pieces of one response returns it.** -/
theorem recvResponse_pieces {size : Nat} {pieces : List Bytes} {l l' : Link} (hcuts : Cuts size l pieces l')
    (hclean : CleanCuts (http_parser_init .HTTP_RESPONSE) pieces) (hresp : IsResponse pieces.flatten) :
    recvResponse size l = .ok (some (HttpResponseParser.execute .new pieces.flatten).1.target.data) l' := by
  have hlen := hcuts.length_le
  rw [recvResponse, recvResponseLoop_eq]
  exact receiveLoop_pieces hcuts.ne_nil hclean hresp (k := 0) (List.length_pos_iff.mpr hresp.ne_nil) (by omega) hcuts

end Http
end Wuchat
