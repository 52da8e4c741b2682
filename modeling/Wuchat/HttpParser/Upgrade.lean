/-
# The vendored HTTP parser: requests for another protocol

A request with an `Upgrade` header and with `Connection: Upgrade` sets `upgrade`, whatever its
path and its other headers are, unless it is refused with an error (`reads_request`).

`Reads P bs Q` is the triple for runs: from a parser with `P` the bytes `bs` lead to one with `Q`, or to
a return of a parser that is `Refused`.  It does not depend on the callbacks, and it is put
together from the work on single bytes (`Prog.Then`).  What a header says is seen
in the flags when its line has ended (`LineStart`), and flags of a message are never taken back.
-/

import Wuchat.HttpParser.Runs

namespace Wuchat
namespace HttpParsing

open Foundation Http

/-! ### Triples -/

/-- A parser that is of no use to `HttpRequestParser::execute`. -/
def Refused (p : HttpParser) : Prop := p.http_errno ≠ .OK ∨ p.upgrade = true

/-- A condition on the parser between two bytes. -/
abbrev Cond := HttpParser → Loop → Prop

/-- Every way through a program, but for failing callbacks, leads to `Q` or is refused. -/
def Prog.Then (Q : Cond) : Prog → Prop
  | .next p loop => Q p loop
  | .exit p _ => Refused p
  | .mark _ k => k.Then Q
  | .data _ _ _ _ k => k.Then Q
  | .notify _ _ _ k => k.Then Q
  | .headersComplete _ k => (k 0).Then Q

/-- A run that has come to `Q`, or was refused. -/
def Out.Then {A : Type} (Q : Cond) : Out A → Prop
  | .next p loop _ => Q p loop
  | .exit p _ _ => Refused p

/-- **The bytes lead from `P` to `Q`**, or to a refusal. -/
def Reads (P : Cond) (bs : Bytes) (Q : Cond) : Prop :=
  ∀ (A : Type) (s : Settings A), (∀ p a, (s.headersComplete p a).2 = 0) →
    ∀ p loop l, P p loop → (runBytes s bs p loop l).Then Q

variable {P Q R : Cond} {p : HttpParser} {loop : Loop} {ch : UInt8}

/-- What every end of a program has holds of its run, when the headers are answered with 0. -/
theorem Prog.Then.run {A : Type} {s : Settings A} (hs : ∀ p a, (s.headersComplete p a).2 = 0) {prog : Prog}
    (h : prog.Then Q) (l : Locals A) : (prog.run s ch l).Then Q := by
  induction prog generalizing l with
  | next p loop => exact h
  | exit p adv => exact h
  | mark m k ih => exact ih h _
  | data m withByte adv p k ih =>
    unfold Prog.run
    split
    · exact ih h _
    · rename_i bs _
      generalize s.data m p (if withByte then bs ++ [ch] else bs) l.app = r
      dsimp only
      split
      · exact .inl m.errno_ne
      · exact ih h _
  | notify n adv p k ih =>
    unfold Prog.run
    dsimp only
    split
    · exact .inl n.errno_ne
    · exact ih h _
  | headersComplete p k ih =>
    unfold Prog.run
    dsimp only
    rw [hs]
    exact ih 0 h _

/-- What every end of a program has may be weakened. -/
theorem Prog.Then.mono {prog : Prog} (h : prog.Then Q) (hqr : ∀ p loop, Q p loop → R p loop) :
    prog.Then R := by
  induction prog with
  | next p loop => exact hqr p loop h
  | exit p adv => exact h
  | mark m k ih => exact ih h
  | data m withByte adv p k ih => exact ih h
  | notify n adv p k ih => exact ih h
  | headersComplete p k ih => exact ih 0 h

/-- No byte changes nothing. -/
theorem Reads.nil (P : Cond) : Reads P [] P := fun _ _ _ _ _ _ h => h

/-- A byte, then the others. -/
theorem Reads.cons {bs : Bytes} (hch : ∀ p loop, P p loop → (byteProg loop ch p).Then Q)
    (hrest : Reads Q bs R) : Reads P (ch :: bs) R := by
  intro A s hs p loop l hp
  have hrun : ((byteProg loop ch p).run s ch l).Then Q := (hch p loop hp).run hs l
  unfold runBytes
  split
  · rename_i heq
    rw [heq] at hrun
    exact hrest A s hs _ _ _ hrun
  · rename_i heq
    rw [heq] at hrun
    exact hrun

/-- One byte alone. -/
theorem Reads.byte (hch : ∀ p loop, P p loop → (byteProg loop ch p).Then Q) : Reads P [ch] Q :=
  .cons hch (.nil Q)

/-- Bytes, then others. -/
theorem Reads.append {bs cs : Bytes} (hbs : Reads P bs Q) (hcs : Reads Q cs R) : Reads P (bs ++ cs) R := by
  intro A s hs p loop l hp
  have hrun := hbs A s hs p loop l hp
  rw [runBytes_append]
  cases hmid : runBytes s bs p loop l with
  | next q loop' l' =>
    rw [hmid] at hrun
    exact hcs A s hs q loop' l' hrun
  | exit q adv l' =>
    rw [hmid] at hrun
    exact hrun

/-- What is needed before the bytes may be strengthened. -/
theorem Reads.pre {bs : Bytes} (h : Reads Q bs R) (hpq : ∀ p loop, P p loop → Q p loop) : Reads P bs R :=
  fun A s hs p loop l hp => h A s hs p loop l (hpq p loop hp)

/-- A condition that every byte keeps is kept by all of them. -/
theorem Reads.all {bs : Bytes} (h : ∀ ch ∈ bs, ∀ p loop, P p loop → (byteProg loop ch p).Then P) :
    Reads P bs P := by
  induction bs with
  | nil => exact .nil P
  | cons ch bs ih =>
    exact .cons (h ch List.mem_cons_self) (ih fun c hc => h c (List.mem_cons_of_mem _ hc))

/-- A failure has no end to speak of. -/
theorem then_fail (e : HttpErrno) (he : e ≠ .OK) (p : HttpParser) : (fail e p).Then Q := .inl he

/-- A strict check fails, or its program goes on. -/
theorem then_strictCheck {cond : Prop} [Decidable cond] {k : Prog} (hk : ¬cond → k.Then Q) :
    (strictCheck cond p k).Then Q := by
  unfold strictCheck
  split
  · exact then_fail _ (by decide) p
  · exact hk ‹_›

/-- The bytes of the headers are too many, or the program goes on with the count. -/
theorem then_countHeaderSize {v : Nat} {k : HttpParser → Prog} (hk : (k (addRead v p)).Then Q) :
    (countHeaderSize v p k).Then Q := by
  unfold countHeaderSize
  split
  · exact then_fail _ (by decide) _
  · exact hk

/-- The work on a byte in the outer loop, where the headers are read. -/
theorem then_byteProg_outer (hp : p.state.parsingHeader = true) (h : (reexecute ch (addRead 1 p)).Then Q) :
    (byteProg .outer ch p).Then Q := by
  unfold byteProg
  dsimp only
  rw [if_pos hp]
  exact then_countHeaderSize h

/-! ### The request line -/

/-- The states of a request line, after its first byte and before its end. -/
def State.inRequestLine : State → Bool
  | s_req_method | s_req_spaces_before_url | s_req_schema | s_req_schema_slash
  | s_req_schema_slash_slash | s_req_server_start | s_req_server | s_req_server_with_at | s_req_path
  | s_req_query_string_start | s_req_query_string | s_req_fragment_start | s_req_fragment
  | s_req_http_start | s_req_http_H | s_req_http_HT | s_req_http_HTT | s_req_http_HTTP | s_req_http_I
  | s_req_http_IC | s_req_http_major | s_req_http_dot | s_req_http_minor | s_req_http_end => true
  | _ => false

/-- A request before its body. -/
def BeforeBody (p : HttpParser) : Prop := p.type = .HTTP_REQUEST ∧ p.flags.trailing = false

/-- In the request line. -/
def InRequestLine : Cond := fun p loop => loop = .outer ∧ BeforeBody p ∧ p.state.inRequestLine = true

/-- At one state of the outer loop. -/
def At (s : State) : Cond := fun p loop => loop = .outer ∧ BeforeBody p ∧ p.state = s

/-- The URL is in the request line. -/
theorem inUrl_inRequestLine {s : State} (h : s.inUrl = true) : s.inRequestLine = true := by
  cases s <;> first | rfl | cases h

/-- No method has a carriage return in its name. -/
theorem methodString_getD (m : HttpMethod) (i : Nat) : (methodString m).getD i 0 ≠ CR := by
  have hmem : ∀ c ∈ methodString m, c ≠ CR := by cases m <;> decide +kernel
  by_cases hi : i < (methodString m).length
  · rw [List.getD_eq_getElem?_getD, List.getElem?_eq_getElem hi]
    exact hmem _ (List.getElem_mem hi)
  · rw [List.getD_eq_getElem?_getD, List.getElem?_eq_none (Nat.le_of_not_lt hi)]
    decide

/-- After a byte of the request line: still in it, or before the `LF`. -/
def AfterLineByte (ch : UInt8) : Cond := fun p loop =>
  (ch ≠ CR ∧ InRequestLine p loop) ∨ (ch = CR ∧ At .s_req_line_almost_done p loop)

section RequestLine

variable (hp : BeforeBody p)
include hp

/-- A state in the request line, by a byte that does not end it. -/
theorem then_next_line {q : HttpParser} (hq : q.type = p.type) (hflags : q.flags = p.flags)
    (hs : q.state.inRequestLine = true) (hcr : ch ≠ CR) : (Prog.next q .outer).Then (AfterLineByte ch) :=
  .inl ⟨hcr, rfl, ⟨hq.trans hp.1, by rw [hflags]; exact hp.2⟩, hs⟩

/-- A byte of the URL stays in the request line. -/
theorem then_urlChar {s : State} : (urlChar s ch p).Then (AfterLineByte ch) := by
  unfold urlChar
  dsimp only
  split
  · exact then_fail _ (by decide) _
  · rename_i hne
    refine then_next_line hp rfl rfl (inUrl_inRequestLine ((parse_url_char_inUrl s ch).resolve_right hne)) ?_
    rintro rfl
    exact hne (by simp [parse_url_char])

/-- A byte of the method does. -/
theorem then_reqMethod (hs : p.state = .s_req_method) : (reqMethod ch p).Then (AfterLineByte ch) := by
  unfold reqMethod
  split
  · exact then_fail _ (by decide) _
  dsimp only
  split
  · rename_i hsp
    exact then_next_line hp rfl rfl rfl (by rw [hsp.1]; decide)
  split
  · rename_i hc
    exact then_next_line hp rfl rfl (by rw [hs]; rfl) (by rw [hc]; exact methodString_getD _ _)
  split
  · rename_i hletter
    split
    · exact then_fail _ (by decide) _
    · refine then_next_line hp rfl rfl (by rw [hs]; rfl) ?_
      rintro rfl
      exact absurd hletter (by decide)
  · exact then_fail _ (by decide) _

/-- A blank before the URL does. -/
theorem then_reqSpacesBeforeUrl (hs : p.state = .s_req_spaces_before_url) :
    (reqSpacesBeforeUrl ch p).Then (AfterLineByte ch) := by
  unfold reqSpacesBeforeUrl
  split
  · rename_i hsp
    exact then_next_line hp rfl rfl (by rw [hs]; rfl) (by rw [hsp]; decide)
  · exact then_urlChar hp

/-- A byte of the scheme does. -/
theorem then_reqSchema : (reqSchema ch p).Then (AfterLineByte ch) := by
  unfold reqSchema
  split
  · exact then_fail _ (by decide) _
  · exact then_urlChar hp

/-- A byte of the URL does, and so does its end unless it is a line feed. -/
theorem then_reqUrl (hlf : ch ≠ LF) : (reqUrl ch p).Then (AfterLineByte ch) := by
  unfold reqUrl
  split
  · rename_i hsp
    refine then_next_line (q := { p with state := .s_req_http_start }) hp rfl rfl rfl ?_
    rw [hsp]
    decide
  split
  · rename_i hend
    have hcr := hend.resolve_right hlf
    dsimp only
    rw [if_pos hcr]
    exact .inr ⟨hcr, rfl, hp, rfl⟩
  · exact then_urlChar hp

/-- A byte before the version does. -/
theorem then_reqHttpStart (hs : p.state = .s_req_http_start) : (reqHttpStart ch p).Then (AfterLineByte ch) := by
  unfold reqHttpStart
  split
  · rename_i hc
    exact then_next_line hp rfl rfl (by rw [hs]; rfl) (by rw [hc]; decide)
  split
  · rename_i hc
    exact then_next_line hp rfl rfl rfl (by rw [hc]; decide)
  split
  · rename_i hc
    exact then_next_line hp rfl rfl rfl (by rw [hc.1]; decide)
  · exact then_fail _ (by decide) _

/-- A byte that must be a given one does. -/
theorem then_expect {c : Char} {s : State} (hs : s.inRequestLine = true) (hc : chr c ≠ CR) :
    (expect c s ch p).Then (AfterLineByte ch) := by
  refine then_strictCheck fun h => then_next_line hp rfl rfl hs ?_
  rw [Decidable.not_not.mp h]
  exact hc

/-- A digit of the version does. -/
theorem then_versionDigit {k : Nat → HttpParser} (htype : ∀ n, (k n).type = p.type)
    (hflags : ∀ n, (k n).flags = p.flags) (hs : ∀ n, (k n).state.inRequestLine = true) :
    (versionDigit ch p k).Then (AfterLineByte ch) := by
  unfold versionDigit
  split
  · exact then_fail _ (by decide) _
  · rename_i hnum
    refine then_next_line hp (htype _) (hflags _) (hs _) ?_
    rintro rfl
    exact hnum (by decide)

/-- A character of `HTTP/1.1` does. -/
theorem then_versionChar {c : Char} {s : State} (hs : s.inRequestLine = true) (hc : chr c ≠ CR) :
    (versionChar c s ch p).Then (AfterLineByte ch) := by
  unfold versionChar
  split
  · exact then_fail _ (by decide) _
  · rename_i h
    refine then_next_line hp rfl rfl hs ?_
    rw [Decidable.not_not.mp h]
    exact hc

/-- The end of the version does, and its carriage return ends the line. -/
theorem then_reqHttpEnd (hlf : ch ≠ LF) : (reqHttpEnd ch p).Then (AfterLineByte ch) := by
  unfold reqHttpEnd
  split
  · exact .inr ⟨‹_›, rfl, hp, rfl⟩
  · exact then_fail _ (by decide) _

end RequestLine

/-- **A byte of the request line.** -/
theorem then_requestLine (h : InRequestLine p loop) (hlf : ch ≠ LF) :
    (byteProg loop ch p).Then (AfterLineByte ch) := by
  obtain ⟨rfl, hbefore, hs⟩ := h
  refine then_byteProg_outer (by revert hs; cases p.state <;> simp [State.inRequestLine, State.parsingHeader]) ?_
  have hp : BeforeBody (addRead 1 p) := hbefore
  replace hs : (addRead 1 p).state.inRequestLine = true := hs
  generalize addRead 1 p = q at hp hs
  unfold reexecute
  cases hst : q.state with
  | s_req_method => exact then_reqMethod hp hst
  | s_req_spaces_before_url => exact then_reqSpacesBeforeUrl hp hst
  | s_req_schema | s_req_schema_slash | s_req_schema_slash_slash | s_req_server_start =>
    exact then_reqSchema hp
  | s_req_server | s_req_server_with_at | s_req_path | s_req_query_string_start
  | s_req_query_string | s_req_fragment_start | s_req_fragment => exact then_reqUrl hp hlf
  | s_req_http_start => exact then_reqHttpStart hp hst
  | s_req_http_H | s_req_http_HT | s_req_http_HTT | s_req_http_HTTP | s_req_http_I | s_req_http_IC =>
    exact then_expect hp rfl (by decide)
  | s_req_http_major | s_req_http_minor =>
    exact then_versionDigit hp (fun _ => rfl) (fun _ => rfl) (fun _ => rfl)
  | s_req_http_dot => exact then_versionChar hp rfl (by decide)
  | s_req_http_end => exact then_reqHttpEnd hp hlf
  | _ =>
    rw [hst] at hs
    cases hs

/-- The first byte of a request. -/
theorem then_startReq (h : At .s_start_req p loop) (hch : isAlpha ch = true) :
    (byteProg loop ch p).Then InRequestLine := by
  obtain ⟨rfl, hp, hs⟩ := h
  refine then_byteProg_outer (by rw [hs]; rfl) ?_
  unfold reexecute
  rw [show (addRead 1 p).state = .s_start_req from hs]
  dsimp only
  unfold startReq
  split
  · rename_i hend
    rcases hend with rfl | rfl <;> exact absurd hch (by decide)
  dsimp only
  rw [hch, Bool.not_true, if_neg Bool.false_ne_true]
  split
  · exact then_fail _ (by decide) _
  · exact ⟨rfl, ⟨hp.1, rfl⟩, rfl⟩

/-- **A request line leads to the headers.** -/
theorem reads_requestLine {line : Bytes} (hch : isAlpha ch = true) (hcr : CR ∉ line) (hlf : LF ∉ line) :
    Reads (At .s_start_req) (ch :: line ++ [CR, LF]) (At .s_header_field_start) := by
  have hline : Reads InRequestLine line InRequestLine := by
    refine .all fun c hc p loop h => ?_
    refine (then_requestLine h fun hl => hlf (hl ▸ hc)).mono fun q loop' hq => ?_
    rcases hq with hq | hq
    · exact hq.2
    · exact (hcr (hq.1 ▸ hc)).elim
  have hcr' : Reads InRequestLine [CR] (At .s_req_line_almost_done) := by
    refine .byte fun p loop h => (then_requestLine h (by decide)).mono fun q loop' hq => ?_
    rcases hq with hq | hq
    · exact (hq.1 rfl).elim
    · exact hq.2
  have hlf' : Reads (At .s_req_line_almost_done) [LF] (At .s_header_field_start) := by
    refine .byte fun p loop h => ?_
    obtain ⟨rfl, hp, hs⟩ := h
    refine then_byteProg_outer (by rw [hs]; rfl) ?_
    unfold reexecute
    rw [show (addRead 1 p).state = .s_req_line_almost_done from hs]
    exact ⟨rfl, hp, rfl⟩
  exact .cons (fun p loop h => then_startReq h hch) (hline.append (hcr'.append hlf'))

/-! ### What the headers have asked for -/

/-- The flags that are set at least. -/
def Asked (u c : Bool) (flags : Flags) : Prop :=
  (u = true → flags.upgrade = true) ∧ (c = true → flags.connectionUpgrade = true)

/-- What was asked for stays asked for behind a further value. -/
theorem Asked.flagOf {u c : Bool} {flags : Flags} (h : Asked u c flags) (s : HeaderState) :
    Asked u c (flagOf s flags) := by
  unfold HttpParsing.flagOf
  split
  · exact h
  · exact h
  · exact ⟨h.1, fun _ => rfl⟩
  · exact h
  · exact h

/-- Before the first byte of a header line, or of the empty line: the flag of the line before it is set with
the next byte. -/
def LineStart (u c : Bool) : Cond := fun p loop =>
  loop = .outer ∧ BeforeBody p ∧
    ((p.state = .s_header_field_start ∧ Asked u c p.flags) ∨
      ((p.state = .s_header_value_lws ∨ p.state = .s_header_value_discard_lws) ∧
        Asked u c (flagOf p.header_state p.flags)))

/-- In a header name, with the header state `h` and the index `i`. -/
def InName (u c : Bool) (h : HeaderState) (i : Nat) : Cond := fun p loop =>
  (loop = .outer ∨ ∃ k, loop = .field k) ∧ BeforeBody p ∧ Asked u c p.flags ∧
    p.state = .s_header_field ∧ p.header_state = h ∧ p.index = i

/-- Between a header name and its value. -/
def BeforeValue (u c : Bool) (h : HeaderState) : Cond := fun p loop =>
  loop = .outer ∧ BeforeBody p ∧ Asked u c p.flags ∧
    p.state = .s_header_value_discard_ws ∧ p.header_state = h

/-- In a header value. -/
def InValue (u c : Bool) : Cond := fun p loop =>
  (loop = .outer ∨ ∃ k general, loop = .value k general) ∧ BeforeBody p ∧ Asked u c p.flags ∧
    p.state = .s_header_value

variable {u c : Bool}

/-- The first byte of a line: `headerFieldStart`, with the flag of the line before. -/
theorem then_lineStart (h : LineStart u c p loop) (hsp : ch ≠ chr ' ' ∧ ch ≠ 9)
    (hstart : ∀ q, BeforeBody q → Asked u c q.flags → (headerFieldStart ch q).Then Q) :
    (byteProg loop ch p).Then Q := by
  obtain ⟨rfl, hp, hs⟩ := h
  rcases hs with ⟨hs, hflags⟩ | ⟨hs | hs, hflags⟩
  · refine then_byteProg_outer (by rw [hs]; rfl) ?_
    unfold reexecute
    rw [show (addRead 1 p).state = .s_header_field_start from hs]
    exact hstart _ hp hflags
  · refine then_byteProg_outer (by rw [hs]; rfl) ?_
    unfold reexecute
    rw [show (addRead 1 p).state = .s_header_value_lws from hs]
    dsimp only
    unfold headerValueLws
    rw [if_neg (not_or.mpr hsp)]
    exact hstart _ ⟨hp.1, (flagOf_trailing _ _).trans hp.2⟩ hflags
  · refine then_byteProg_outer (by rw [hs]; rfl) ?_
    unfold reexecute
    rw [show (addRead 1 p).state = .s_header_value_discard_lws from hs]
    dsimp only
    unfold headerValueDiscardLws
    rw [if_neg (not_or.mpr hsp)]
    split
    · exact then_fail _ (by decide) _
    · exact hstart _ ⟨hp.1, (flagOf_trailing _ _).trans hp.2⟩ hflags

/-- Bytes of a name are not among those that end something. -/
theorem token_isSome_ne {ch : UInt8} (h : (token ch).isSome = true) :
    ch ≠ chr ' ' ∧ ch ≠ 9 ∧ ch ≠ CR ∧ ch ≠ LF := by
  refine ⟨?_, ?_, ?_, ?_⟩ <;> rintro rfl <;> exact absurd h (by decide)

/-- The first byte of a header name. -/
theorem then_name_first (h : LineStart u c p loop) {t : UInt8} (ht : token ch = some t) :
    (byteProg loop ch p).Then (InName u c (firstHeaderState t) 0) := by
  have hsome : (token ch).isSome = true := by rw [ht]; rfl
  obtain ⟨h₁, h₂, h₃, h₄⟩ := token_isSome_ne hsome
  refine then_lineStart h ⟨h₁, h₂⟩ fun q hq hflags => ?_
  unfold headerFieldStart
  rw [if_neg h₃, if_neg h₄, ht]
  exact ⟨.inl rfl, hq, hflags, rfl, rfl, rfl⟩

/-- The same parser, up to the bytes it has counted. -/
structure Counted (p q : HttpParser) : Prop where
  type : q.type = p.type
  flags : q.flags = p.flags
  state : q.state = p.state
  header_state : q.header_state = p.header_state
  index : q.index = p.index

/-- Nothing has changed. -/
theorem Counted.rfl : Counted p p := ⟨.refl _, .refl _, .refl _, .refl _, .refl _⟩

/-- The count of the headers' bytes changes nothing else. -/
theorem Counted.count {v : Nat} : Counted p (addRead v p) := ⟨.refl _, .refl _, .refl _, .refl _, .refl _⟩

/-- Before the body stays before it. -/
theorem Counted.beforeBody {q : HttpParser} (h : Counted p q) (hp : BeforeBody p) : BeforeBody q :=
  ⟨h.type.trans hp.1, by rw [h.flags]; exact hp.2⟩

/-! ### Header names -/

/-- What a byte of a name does to the header state and the index. -/
def fieldStep (ch : UInt8) (hi : HeaderState × Nat) : HeaderState × Nat :=
  let q := fieldChar ch ((token ch).getD 0)
    { http_parser_init .HTTP_REQUEST with header_state := hi.1, index := hi.2 }
  (q.header_state, q.index)

/-- The header state and the index after a name. -/
def nameState : Bytes → HeaderState × Nat
  | [] => (.h_general, 0)
  | ch :: rest => rest.foldl (fun hi ch => fieldStep ch hi) (firstHeaderState ((token ch).getD 0), 0)

/-- A byte of a name leaves the rest of the parser. -/
theorem fieldChar_step {t : UInt8} (ht : token ch = some t) (p : HttpParser) :
    (fieldChar ch t p).type = p.type ∧ (fieldChar ch t p).flags = p.flags ∧
      ((fieldChar ch t p).header_state, (fieldChar ch t p).index) = fieldStep ch (p.header_state, p.index) := by
  unfold fieldStep
  rw [ht, Option.getD_some]
  unfold fieldChar
  cases hst : p.header_state <;> dsimp only [matchWord] <;> first
    | exact ⟨rfl, rfl, by rw [hst]⟩
    | exact ⟨rfl, rfl, rfl⟩
    | (split <;> first | exact ⟨rfl, rfl, rfl⟩ | exact ⟨rfl, rfl, by rw [hst]⟩)

/-- A further byte of a header name. -/
theorem then_name_next {hi : HeaderState × Nat} (h : InName u c hi.1 hi.2 p loop)
    (hch : (token ch).isSome = true) :
    (byteProg loop ch p).Then (InName u c (fieldStep ch hi).1 (fieldStep ch hi).2) := by
  obtain ⟨t, ht⟩ := Option.isSome_iff_exists.mp hch
  obtain ⟨hloop, hp, hflags, hs, hh, hi'⟩ := h
  -- the byte is taken by the loop of the name, after `k` bytes of it
  have hname : ∀ k q, Counted p q →
      (headerField k ch q).Then (InName u c (fieldStep ch hi).1 (fieldStep ch hi).2) := by
    rintro k q ⟨h₁, h₂, h₃, h₄, h₅⟩
    obtain ⟨g₁, g₂, g₃⟩ := fieldChar_step ht q
    rw [h₄, h₅, hh, hi'] at g₃
    unfold headerField
    rw [ht]
    refine ⟨.inr ⟨k + 1, rfl⟩, ⟨?_, ?_⟩, ?_, ?_, congrArg Prod.fst g₃, congrArg Prod.snd g₃⟩
    · rw [g₁, h₁]; exact hp.1
    · rw [g₂, h₂]; exact hp.2
    · rw [g₂, h₂]; exact hflags
    · rw [(sameLine_fieldChar ch t q).state, h₃]; exact hs
  rcases hloop with rfl | ⟨k, rfl⟩
  · refine then_byteProg_outer (by rw [hs]; rfl) ?_
    unfold reexecute
    rw [show (addRead 1 p).state = .s_header_field from hs]
    exact hname 0 _ .count
  · exact hname k p .rfl

/-- **A header name** leads to the header state it stands for. -/
theorem reads_name {name : Bytes} (hne : name ≠ []) (htok : ∀ ch ∈ name, (token ch).isSome = true) :
    Reads (LineStart u c) name (InName u c (nameState name).1 (nameState name).2) := by
  obtain ⟨ch, rest, rfl⟩ := List.exists_cons_of_ne_nil hne
  obtain ⟨t, ht⟩ := Option.isSome_iff_exists.mp (htok ch List.mem_cons_self)
  have hrest : ∀ (rest : Bytes) (hi : HeaderState × Nat), (∀ ch ∈ rest, (token ch).isSome = true) →
      Reads (InName u c hi.1 hi.2) rest (InName u c (rest.foldl (fun hi ch => fieldStep ch hi) hi).1
        (rest.foldl (fun hi ch => fieldStep ch hi) hi).2) := by
    intro rest
    induction rest with
    | nil => exact fun hi _ => .nil _
    | cons ch rest ih =>
      intro hi hall
      exact .cons (fun p loop h => then_name_next h (hall ch List.mem_cons_self))
        (ih _ fun c hc => hall c (List.mem_cons_of_mem _ hc))
  refine .cons (fun p loop h => ?_) (hrest rest (firstHeaderState ((token ch).getD 0), 0)
    fun c hc => htok c (List.mem_cons_of_mem _ hc))
  have hfirst := then_name_first h ht
  rwa [ht, Option.getD_some]

/-- Case does not matter in a name. -/
theorem token_tolower {ch : UInt8} (h : (token ch).isSome = true) :
    token ch = some (tolower ch) ∧ token (tolower ch) = some (tolower ch) := by
  revert ch
  exact @forall_byte _ (by decide +kernel)

/-- Of a character of a name only its lower case counts. -/
theorem fieldChar_anyCase {ch ch' t : UInt8} (h : ch ≠ chr ' ') (h' : ch' ≠ chr ' ') (p : HttpParser) :
    fieldChar ch t p = fieldChar ch' t p := by
  unfold fieldChar
  rw [if_pos h, if_pos h']

/-- So only the lower case of a whole name counts. -/
theorem nameState_tolower {name : Bytes} (htok : ∀ ch ∈ name, (token ch).isSome = true) :
    nameState name = nameState (name.map tolower) := by
  have hstep : ∀ ch ∈ name, ∀ hi, fieldStep ch hi = fieldStep (tolower ch) hi := by
    intro ch hch hi
    obtain ⟨h₁, h₂⟩ := token_tolower (htok ch hch)
    have hsome : (token (tolower ch)).isSome = true := by rw [h₂]; rfl
    unfold fieldStep
    rw [h₁, h₂, fieldChar_anyCase (token_isSome_ne (htok ch hch)).1 (token_isSome_ne hsome).1]
  cases name with
  | nil => rfl
  | cons ch rest =>
    obtain ⟨h₁, h₂⟩ := token_tolower (htok ch List.mem_cons_self)
    simp only [nameState, List.map_cons, h₁, h₂, List.foldl_map]
    refine List.foldl_rel (r := (· = ·)) rfl fun c hc hi hi' heq => ?_
    rw [heq]
    exact hstep c (List.mem_cons_of_mem _ hc) hi'

/-- The colon after a name. -/
theorem then_colon {h : HeaderState} {i : Nat} (hname : InName u c h i p loop) :
    (byteProg loop (chr ':') p).Then (BeforeValue u c h) := by
  obtain ⟨hloop, hp, hflags, hs, hh, -⟩ := hname
  have hcolon : ∀ k q, BeforeBody q → Asked u c q.flags → q.header_state = h →
      (headerField k (chr ':') q).Then (BeforeValue u c h) := by
    intro k q h₁ h₂ h₃
    unfold headerField
    rw [show token (chr ':') = none from by decide]
    refine then_countHeaderSize ?_
    rw [if_pos rfl]
    exact ⟨rfl, h₁, h₂, rfl, h₃⟩
  rcases hloop with rfl | ⟨k, rfl⟩
  · refine then_byteProg_outer (by rw [hs]; rfl) ?_
    unfold reexecute
    rw [show (addRead 1 p).state = .s_header_field from hs]
    exact hcolon 0 _ hp hflags hh
  · exact hcolon k p hp hflags hh

/-! ### Header values -/

/-- A byte between a name and its value. -/
theorem then_beforeValue {h : HeaderState} (hb : BeforeValue u c h p loop)
    (hnext : ∀ q, BeforeBody q → Asked u c q.flags → q.state = .s_header_value_discard_ws → q.header_state = h →
      (headerValueDiscardWs ch q).Then Q) : (byteProg loop ch p).Then Q := by
  obtain ⟨rfl, hp, hflags, hs, hh⟩ := hb
  refine then_byteProg_outer (by rw [hs]; rfl) ?_
  unfold reexecute
  rw [show (addRead 1 p).state = .s_header_value_discard_ws from hs]
  exact hnext _ hp hflags hs hh

/-- Space before a value. -/
theorem reads_space {h : HeaderState} {ows : Bytes} (hows : ∀ ch ∈ ows, ch = chr ' ' ∨ ch = 9) :
    Reads (BeforeValue u c h) ows (BeforeValue u c h) := by
  refine .all fun ch hch p loop hb => then_beforeValue hb fun q hq hflags hs hh => ?_
  unfold headerValueDiscardWs
  rw [if_pos (hows ch hch)]
  exact ⟨rfl, hq, hflags, hs, hh⟩

/-- The end of a line without a value. -/
theorem reads_noValue {h : HeaderState} : Reads (BeforeValue u c h) [CR, LF] (LineStart u c) := by
  have hcr : Reads (BeforeValue u c h) [CR]
      fun p loop => At .s_header_value_discard_ws_almost_done p loop ∧ Asked u c p.flags := by
    refine .byte fun p loop hb => then_beforeValue hb fun q hq hflags hs hh => ?_
    unfold headerValueDiscardWs
    rw [if_neg (by decide), if_pos rfl]
    exact ⟨⟨rfl, hq, rfl⟩, hflags⟩
  refine hcr.append (.byte fun p loop h => ?_)
  obtain ⟨⟨rfl, hp, hs⟩, hflags⟩ := h
  refine then_byteProg_outer (by rw [hs]; rfl) ?_
  unfold reexecute
  rw [show (addRead 1 p).state = .s_header_value_discard_ws_almost_done from hs]
  exact ⟨rfl, hp, .inr ⟨.inr rfl, hflags.flagOf _⟩⟩

/-- A byte in a header value, in either loop. -/
theorem then_inValue (hv : InValue u c p loop)
    (hnext : ∀ k general q, Counted p q → (headerValue k general ch q).Then Q) :
    (byteProg loop ch p).Then Q := by
  obtain ⟨hloop, -, -, hs⟩ := hv
  rcases hloop with rfl | ⟨k, general, rfl⟩
  · refine then_byteProg_outer (by rw [hs]; rfl) ?_
    unfold reexecute
    rw [show (addRead 1 p).state = .s_header_value from hs]
    exact hnext 0 0 _ .count
  · exact hnext k general p .rfl

/-- A character of a value leaves what was asked for. -/
theorem valueChar_asked {q : HttpParser} (hq : valueChar ch p = .ok q) (h : Asked u c p.flags) :
    q.type = p.type ∧ Asked u c q.flags := by
  have hnum : ∀ p : HttpParser, Asked u c p.flags → contentLengthNum ch p = .ok q →
      q.type = p.type ∧ Asked u c q.flags := by
    intro p h hq
    unfold contentLengthNum at hq
    repeat' split at hq
    all_goals cases hq
    all_goals exact ⟨rfl, h⟩
  unfold valueChar at hq
  dsimp only at hq
  split at hq
  case h_4 =>
    split at hq
    · cases hq
      exact ⟨rfl, h⟩
    · exact hnum { p with header_state := .h_content_length_num } h hq
  case h_5 => exact hnum p h hq
  all_goals
    repeat' split at hq
    all_goals cases hq
    all_goals first
      | exact ⟨rfl, h⟩
      | exact ⟨rfl, h.flagOf _⟩

/-- The first byte of a value. -/
theorem then_value_first {h : HeaderState} (hb : BeforeValue u c h p loop)
    (hch : ch ≠ chr ' ' ∧ ch ≠ 9 ∧ ch ≠ CR ∧ ch ≠ LF) :
    (byteProg loop ch p).Then (InValue (u || h == .h_upgrade) c) := by
  refine then_beforeValue hb fun q hq hflags hs hh => ?_
  unfold headerValueDiscardWs
  rw [if_neg (not_or.mpr ⟨hch.1, hch.2.1⟩), if_neg hch.2.2.1, if_neg hch.2.2.2]
  have hother : h ≠ .h_upgrade → (u || h == .h_upgrade) = u := by
    intro hne
    rw [beq_eq_false_iff_ne.mpr hne, Bool.or_false]
  unfold headerValueStart
  dsimp only [Prog.Then]
  rw [hh]
  split
  · exact ⟨.inl rfl, hq, ⟨fun _ => rfl, hflags.2⟩, rfl⟩
  · rw [hother (by nofun)]
    exact ⟨.inl rfl, hq, hflags, rfl⟩
  · rw [hother (by nofun)]
    split
    · exact then_fail _ (by decide) _
    split
    · exact then_fail _ (by decide) _
    · exact ⟨.inl rfl, hq, hflags, rfl⟩
  · rw [hother (by nofun)]
    exact ⟨.inl rfl, hq, hflags, rfl⟩
  · rw [hother (by nofun)]
    exact ⟨.inl rfl, hq, hflags, rfl⟩
  · rw [hother (by nofun)]
    exact ⟨.inl rfl, hq, hflags, rfl⟩
  · rename_i hne _ _ _ _ _
    rw [hother hne]
    exact ⟨.inl rfl, hq, hflags, rfl⟩

/-- A further byte of a value. -/
theorem then_value_next (hv : InValue u c p loop) (hcr : ch ≠ CR) (hlf : ch ≠ LF) :
    (byteProg loop ch p).Then (InValue u c) := by
  refine then_inValue hv fun k general q hcount => ?_
  have hq := hcount.beforeBody hv.2.1
  have hflags : Asked u c q.flags := by rw [hcount.flags]; exact hv.2.2.1
  have hs := hcount.state.trans hv.2.2.2
  unfold headerValue
  split
  · exact ⟨.inr ⟨_, _, rfl⟩, hq, hflags, hs⟩
  split
  · exact then_fail _ (by decide) _
  split
  · exact then_fail _ (errno_valueChar ‹_›) _
  · rename_i q' hq'
    have hsame := sameLine_valueChar hq'
    obtain ⟨h₁, h₂⟩ := valueChar_asked hq' hflags
    exact ⟨.inr ⟨_, _, rfl⟩, ⟨h₁.trans hq.1, hsame.trailing.trans hq.2⟩, h₂, hsame.state.trans hs⟩

/-- At the end of a value whose header state says what was asked for. -/
def ValueDone (u c : Bool) : Cond := fun p loop =>
  InValue false false p loop ∧ Asked u c (flagOf p.header_state p.flags)

/-- A value may end at any of its bytes. -/
theorem InValue.done (h : InValue u c p loop) : ValueDone u c p loop :=
  ⟨⟨h.1, h.2.1, ⟨nofun, nofun⟩, h.2.2.2⟩, h.2.2.1.flagOf _⟩

/-- **The end of a header line.**  A `CR` that is not looked at, after `max_header_size` bytes, is made up
for by the `LF`. -/
theorem reads_endOfLine : Reads (ValueDone u c) [CR, LF] (LineStart u c) := by
  have hcr : Reads (ValueDone u c) [CR] fun p loop =>
      ((loop = .outer ∧ p.state = .s_header_almost_done) ∨ ((∃ k, loop = .value k 0) ∧ p.state = .s_header_value)) ∧
        BeforeBody p ∧ Asked u c (flagOf p.header_state p.flags) := by
    refine .byte fun p loop h => then_inValue h.1 fun k general q hcount => ?_
    have hq := hcount.beforeBody h.1.2.1
    have hflags : Asked u c (flagOf q.header_state q.flags) := by
      rw [hcount.flags, hcount.header_state]
      exact h.2
    unfold headerValue
    split
    · exact ⟨.inr ⟨⟨_, rfl⟩, hcount.state.trans h.1.2.2.2⟩, hq, hflags⟩
    · rw [if_pos rfl]
      exact then_countHeaderSize ⟨.inl ⟨rfl, rfl⟩, hq, hflags⟩
  refine hcr.append (.byte fun p loop h => ?_)
  obtain ⟨⟨rfl, hs⟩ | ⟨⟨k, rfl⟩, hs⟩, hp, hflags⟩ := h
  · refine then_byteProg_outer (by rw [hs]; rfl) ?_
    unfold reexecute
    rw [show (addRead 1 p).state = .s_header_almost_done from hs]
    exact ⟨rfl, hp, .inr ⟨.inl rfl, hflags⟩⟩
  · show Prog.Then _ (headerValue k 0 LF p)
    unfold headerValue
    rw [if_neg (fun h => absurd h.2 (by decide)), if_neg (by decide), if_pos rfl]
    exact then_countHeaderSize ⟨rfl, hp, .inr ⟨.inl rfl, hflags⟩⟩

/-! ### `Connection: Upgrade` -/

/-- In the value of a connection header, after the letters of `upgrade` up to the index `i`. -/
def InUpgrade (u c : Bool) (i : Nat) : Cond := fun p loop =>
  InValue u c p loop ∧ p.header_state = .h_matching_connection_upgrade ∧ p.index = i

/-- The first letter. -/
theorem then_upgrade_first (hb : BeforeValue u c .h_connection p loop) (hch : tolower ch = chr 'u') :
    (byteProg loop ch p).Then (InUpgrade u c 0) := by
  have hu : ch = chr 'U' ∨ ch = chr 'u' := by
    revert ch
    exact @forall_byte _ (by decide +kernel)
  refine then_beforeValue hb fun q hq hflags hs hh => ?_
  unfold headerValueDiscardWs headerValueStart
  rcases hu with rfl | rfl <;> dsimp only [Prog.Then] <;> rw [hh] <;>
    exact ⟨⟨.inl rfl, hq, hflags, rfl⟩, by dsimp only; decide, rfl⟩

/-- A letter of the word is the same in both ways of ignoring its case. -/
theorem lower_of_mem_upgrade {ch : UInt8} (h : tolower ch ∈ str "upgrade") :
    lower ch = tolower ch ∧ ch ≠ CR ∧ ch ≠ LF := by
  revert ch
  exact @forall_byte _ (by decide +kernel)

/-- The letter of the word at the next index. -/
theorem then_upgrade_next {i : Nat} (hi : i < 6) (hv : InUpgrade u c i p loop)
    (hch : tolower ch = (str "upgrade").getD (i + 1) 0) :
    (byteProg loop ch p).Then fun q loop' => InValue u c q loop' ∧ q.index = i + 1 ∧
      q.header_state = if i = 5 then .h_connection_upgrade else .h_matching_connection_upgrade := by
  have hmem : tolower ch ∈ str "upgrade" := by
    have hlen : i + 1 < (str "upgrade").length := by
      rw [show (str "upgrade").length = 7 from by decide]
      omega
    rw [hch, List.getD_eq_getElem?_getD, List.getElem?_eq_getElem hlen]
    exact List.getElem_mem hlen
  obtain ⟨hlower, hcr, hlf⟩ := lower_of_mem_upgrade hmem
  obtain ⟨hv, hh, hindex⟩ := hv
  refine then_inValue hv fun k general q hcount => ?_
  have hq := hcount.beforeBody hv.2.1
  have hflags : Asked u c q.flags := by rw [hcount.flags]; exact hv.2.2.1
  have hqh := hcount.header_state.trans hh
  have hqi := hcount.index.trans hindex
  have hok : valueChar ch q = .ok (matchWord (str "upgrade") (lower ch) .h_matching_connection_upgrade
      .h_matching_connection_token .h_connection_upgrade q) := by
    unfold valueChar
    rw [hqh]
  have hbyte : headerValue k general ch q = if !isHeaderChar ch then fail .INVALID_HEADER_TOKEN q
      else .next (matchWord (str "upgrade") (lower ch) .h_matching_connection_upgrade
        .h_matching_connection_token .h_connection_upgrade q) (.value (k + 1) 0) := by
    unfold headerValue
    rw [hok, hqh, if_neg (fun h => nomatch h.1), if_neg hcr, if_neg hlf]
    rfl
  rw [hbyte]
  by_cases hchar : (!isHeaderChar ch) = true
  · rw [if_pos hchar]
    exact then_fail _ (by decide) _
  rw [if_neg hchar]
  refine ⟨⟨.inr ⟨_, _, rfl⟩, hq, hflags, hcount.state.trans hv.2.2.2⟩, ?_, ?_⟩
  · dsimp only [matchWord]
    rw [hqi]
  · dsimp only [matchWord]
    rw [hqi, hlower, hch, if_neg (by rw [show (str "upgrade").length = 7 from by decide]; simp; omega),
      show (str "upgrade").length = 7 from by decide]
    by_cases h5 : i = 5
    · rw [if_pos (by omega), if_pos h5]
    · rw [if_neg (by omega), if_neg h5]

/-- The other letters: all of them make the flag. -/
theorem reads_upgrade {value : Bytes} {i : Nat} (hne : value ≠ [])
    (hvalue : value.map tolower = (str "upgrade").drop (i + 1)) :
    Reads (InUpgrade u c i) value (ValueDone u true) := by
  have hlen : (str "upgrade").length = 7 := by decide
  induction value generalizing i with
  | nil => exact (hne rfl).elim
  | cons ch rest ih =>
    have hcount := congrArg List.length hvalue
    rw [List.length_map, List.length_cons, List.length_drop, hlen] at hcount
    rw [List.drop_eq_getElem_cons (by omega), List.map_cons] at hvalue
    obtain ⟨hch, hrest⟩ := List.cons.inj hvalue
    have hch' : tolower ch = (str "upgrade").getD (i + 1) 0 := by
      rw [List.getD_eq_getElem?_getD, List.getElem?_eq_getElem (by omega)]
      exact hch
    by_cases h5 : i = 5
    · have hnil : rest = [] := List.length_eq_zero_iff.mp (by omega)
      subst hnil
      refine .byte fun p loop h => (then_upgrade_next (by omega) h hch').mono fun q loop' hq => ?_
      obtain ⟨hv, -, hh⟩ := hq
      rw [if_pos h5] at hh
      refine ⟨⟨hv.1, hv.2.1, ⟨nofun, nofun⟩, hv.2.2.2⟩, ?_⟩
      rw [hh]
      exact ⟨hv.2.2.1.1, fun _ => rfl⟩
    · have hne' : rest ≠ [] := by
        rintro rfl
        rw [List.length_nil] at hcount
        omega
      refine .cons (fun p loop h => (then_upgrade_next (by omega) h hch').mono fun q loop' hq => ?_)
        (ih hne' hrest)
      obtain ⟨hv, hi, hh⟩ := hq
      rw [if_neg h5] at hh
      exact ⟨hv, hh, hi⟩

/-! ### Requests -/

/-- A header line `name: value`. -/
structure HeaderLine where
  name : Bytes
  ows : Bytes
  value : Bytes
  name_ne : name ≠ []
  name_token : ∀ ch ∈ name, (token ch).isSome = true
  ows_space : ∀ ch ∈ ows, ch = chr ' ' ∨ ch = 9
  value_head : ∀ ch ∈ value.head?, ch ≠ chr ' ' ∧ ch ≠ 9
  value_line : CR ∉ value ∧ LF ∉ value

/-- The bytes of the line. -/
def HeaderLine.bytes (h : HeaderLine) : Bytes := h.name ++ (chr ':' :: (h.ows ++ (h.value ++ [CR, LF])))

/-- The header has the name, in any case. -/
def HeaderLine.isNamed (h : HeaderLine) (name : String) : Bool := h.name.map tolower == (str name).map tolower

/-- An `Upgrade` header with some value. -/
def HeaderLine.asksUpgrade (h : HeaderLine) : Bool := h.isNamed "Upgrade" && h.value != []

/-- `Connection: Upgrade`. -/
def HeaderLine.asksConnection (h : HeaderLine) : Bool :=
  h.isNamed "Connection" && h.value.map tolower == (str "Upgrade").map tolower

/-- A value that asks for an upgrade asks for no less. -/
theorem InValue.mono {u' : Bool} (h : InValue u' c p loop) (hu : u = true → u' = true) : InValue u c p loop :=
  ⟨h.1, h.2.1, ⟨fun hu' => h.2.2.1.1 (hu hu'), h.2.2.1.2⟩, h.2.2.2⟩

/-- The header state after a name, in any case. -/
theorem HeaderLine.nameState_of_isNamed {h : HeaderLine} {name : String} (hn : h.isNamed name = true) :
    nameState h.name = nameState ((str name).map tolower) := by
  rw [nameState_tolower h.name_token]
  exact congrArg nameState (beq_iff_eq.mp hn)

/-- The value of `Connection: Upgrade`, and the end of its line. -/
theorem reads_value_connection {h : HeaderLine} (hc : h.asksConnection = true) :
    Reads (BeforeValue u c (nameState h.name).1) (h.value ++ [CR, LF]) (LineStart u true) := by
  obtain ⟨hname, hvalue⟩ := Bool.and_eq_true_iff.mp hc
  have hstate : (nameState h.name).1 = .h_connection := by
    rw [HeaderLine.nameState_of_isNamed hname]
    decide
  replace hvalue : h.value.map tolower = str "upgrade" := beq_iff_eq.mp hvalue
  rw [hstate]
  obtain ⟨ch, rest, heq⟩ : ∃ ch rest, h.value = ch :: rest := by
    refine List.exists_cons_of_ne_nil fun hnil => ?_
    rw [hnil] at hvalue
    exact absurd hvalue (by decide)
  have hword : str "upgrade" = chr 'u' :: (str "upgrade").drop (0 + 1) := by decide
  rw [heq, List.map_cons, hword] at hvalue
  obtain ⟨hch, hrest⟩ := List.cons.inj hvalue
  have hne : rest ≠ [] := by
    rintro rfl
    exact absurd hrest (by decide)
  rw [heq]
  exact .cons (fun p loop hb => then_upgrade_first hb hch) ((reads_upgrade hne hrest).append reads_endOfLine)

/-- Any value, and the end of its line. -/
theorem reads_value (h : HeaderLine) :
    Reads (BeforeValue u c (nameState h.name).1) (h.value ++ [CR, LF]) (LineStart (u || h.asksUpgrade) c) := by
  by_cases hnil : h.value = []
  · have hu : h.asksUpgrade = false := by simp [HeaderLine.asksUpgrade, hnil]
    rw [hnil, hu, Bool.or_false]
    exact reads_noValue
  obtain ⟨ch, rest, heq⟩ := List.exists_cons_of_ne_nil hnil
  obtain ⟨hcr, hlf⟩ := h.value_line
  have hch := h.value_head ch (by rw [heq]; rfl)
  rw [heq] at hcr hlf ⊢
  rw [List.mem_cons, not_or] at hcr hlf
  have hstate : (u || h.asksUpgrade) = true → (u || (nameState h.name).1 == .h_upgrade) = true := by
    rw [Bool.or_eq_true, Bool.or_eq_true]
    refine Or.imp_right fun hask => ?_
    rw [HeaderLine.nameState_of_isNamed (Bool.and_eq_true_iff.mp hask).1]
    decide
  have hrest : Reads (InValue (u || h.asksUpgrade) c) rest (InValue (u || h.asksUpgrade) c) :=
    .all fun b hb p loop hv => then_value_next hv (fun he => hcr.2 (he ▸ hb)) fun he => hlf.2 (he ▸ hb)
  refine .cons (fun p loop hb => ?_) (hrest.append (reads_endOfLine.pre fun p loop hv => hv.done))
  exact (then_value_first hb ⟨hch.1, hch.2, Ne.symm hcr.1, Ne.symm hlf.1⟩).mono fun q loop' hv => hv.mono hstate

/-- **A header line** adds what it asks for. -/
theorem reads_headerLine (h : HeaderLine) :
    Reads (LineStart u c) h.bytes (LineStart (u || h.asksUpgrade) (c || h.asksConnection)) := by
  refine (reads_name h.name_ne h.name_token).append
    (.cons (fun p loop hn => then_colon hn) ((reads_space h.ows_space).append ?_))
  by_cases hc : h.asksConnection = true
  · have hu : h.asksUpgrade = false := by
      have hname : h.name.map tolower = str "connection" := beq_iff_eq.mp (Bool.and_eq_true_iff.mp hc).1
      rw [HeaderLine.asksUpgrade, HeaderLine.isNamed, hname]
      exact Bool.and_eq_false_iff.mpr (.inl (by decide))
    rw [hu, hc, Bool.or_false, Bool.or_true]
    exact reads_value_connection hc
  · rw [Bool.eq_false_iff.mpr hc, Bool.or_false]
    exact reads_value h

/-- **Header lines** add what any of them asks for. -/
theorem reads_headerLines (lines : List HeaderLine) :
    Reads (LineStart u c) (lines.flatMap HeaderLine.bytes)
      (LineStart (u || lines.any HeaderLine.asksUpgrade) (c || lines.any HeaderLine.asksConnection)) := by
  induction lines generalizing u c with
  | nil =>
    rw [List.any_nil, List.any_nil, Bool.or_false, Bool.or_false]
    exact .nil _
  | cons h lines ih =>
    rw [List.flatMap_cons, List.any_cons, List.any_cons, ← Bool.or_assoc, ← Bool.or_assoc]
    exact (reads_headerLine h).append ih

/-! ### The end of the headers -/

/-- The end of the headers of a request that asks for another protocol. -/
theorem then_headersDone (hup : p.upgrade = true) : (headersDone ch p).Then fun q _ => q.upgrade = true := by
  refine then_strictCheck fun _ => ?_
  dsimp only
  split
  · exact .inr hup
  split
  · exact hup
  split
  · exact hup
  split
  · exact hup
  split
  · exact hup
  split
  · exact hup
  · exact hup

/-- **The empty line** after headers that ask for another protocol. -/
theorem reads_endOfHeaders : Reads (LineStart true true) [CR, LF] fun q _ => q.upgrade = true := by
  have hcr : Reads (LineStart true true) [CR]
      fun p loop => At .s_headers_almost_done p loop ∧ Asked true true p.flags := by
    refine .byte fun p loop h => then_lineStart h (by decide) fun q hq hflags => ?_
    exact ⟨⟨rfl, hq, rfl⟩, hflags⟩
  refine hcr.append (.byte fun p loop h => ?_)
  obtain ⟨⟨rfl, hp, hs⟩, hu, hc⟩ := h
  refine then_byteProg_outer (by rw [hs]; rfl) ?_
  unfold reexecute
  rw [show (addRead 1 p).state = .s_headers_almost_done from hs]
  refine then_strictCheck fun _ => ?_
  rw [if_neg (by rw [show (addRead 1 p).flags.trailing = false from hp.2]; nofun)]
  split
  · exact then_fail _ (by decide) _
  · dsimp only [Prog.Then, headersCompleted]
    rw [if_pos rfl]
    refine then_headersDone ?_
    dsimp only [wantsUpgrade]
    rw [if_pos ⟨hu rfl, hc rfl⟩]
    exact decide_eq_true (.inl hp.1)

/-- **A request for another protocol sets `upgrade`**, or is refused with an error: whatever follows its method
in the request line, and whatever other headers it has. -/
theorem reads_request {line : Bytes} (hch : isAlpha ch = true) (hcr : CR ∉ line) (hlf : LF ∉ line)
    (lines : List HeaderLine) (hu : lines.any HeaderLine.asksUpgrade = true)
    (hc : lines.any HeaderLine.asksConnection = true) :
    Reads (At .s_start_req) (ch :: line ++ [CR, LF] ++ lines.flatMap HeaderLine.bytes ++ [CR, LF])
      fun q _ => q.upgrade = true := by
  have hlines : Reads (LineStart false false) (lines.flatMap HeaderLine.bytes) (LineStart true true) := by
    have := reads_headerLines (u := false) (c := false) lines
    rwa [hu, hc] at this
  refine .append (.append (reads_requestLine hch hcr hlf) (hlines.pre ?_)) reads_endOfHeaders
  rintro p loop ⟨hloop, hp, hs⟩
  exact ⟨hloop, hp, .inl ⟨hs, nofun, nofun⟩⟩

end HttpParsing
end Wuchat
