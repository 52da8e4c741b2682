/-
# Reading back header lines

What the two parsers make of the header lines of a message, as `dump` prints them, and of its
body.  The lemmas are exact triples (`Scans`): each line is taken exactly if its characters
are what `http_parser` allows and the head is not too long, and then the parser and the
message it fills are known.

Requests and responses differ in their first line only.  The lemmas are therefore about any
callbacks that store a header under its name and append a body (`Fills`).

Of the fields of the parser those that matter for what follows are kept in a `View`.  The
header state is followed through the name of a header only: a name that is not looked for
leaves a state in which the value has no effect on the length of the body (`plain`).
-/

import Wuchat.Http.RequestParser
import Wuchat.HttpParser.Scans
import Wuchat.HttpParser.HeaderNames
import Wuchat.Http.PrintedHeaders

namespace Wuchat
namespace Http

open Foundation HttpParsing

/-! ### Digits -/

/-- The number read after `a`, by more digits. -/
def digitsFrom (a : Nat) (ds : Bytes) : Nat := ds.foldl (fun n c => 10 * n + (c.toNat - 48)) a

/-- One digit, then the others. -/
theorem digitsFrom_cons (a : Nat) (c : UInt8) (ds : Bytes) :
    digitsFrom a (c :: ds) = digitsFrom (10 * a + (c.toNat - 48)) ds := by
  rw [digitsFrom, List.foldl_cons, digitsFrom]

/-- A number does not get smaller by its digits. -/
theorem le_digitsFrom (a : Nat) (ds : Bytes) : a ≤ digitsFrom a ds := by
  induction ds generalizing a with
  | nil => exact Nat.le_refl a
  | cons c ds ih =>
    rw [digitsFrom_cons]
    have := ih (10 * a + (c.toNat - 48))
    omega

/-- The byte of a decimal digit. -/
theorem digit_byte {c : Char} (h : c.isDigit = true) :
    isNum (UInt8.ofNat c.toNat) = true ∧ (UInt8.ofNat c.toNat).toNat = c.toNat := by
  simp only [Char.isDigit, Bool.and_eq_true, decide_eq_true_eq] at h
  have h₁ : 48 ≤ c.toNat := h.1
  have h₂ : c.toNat ≤ 57 := h.2
  have hnat : (UInt8.ofNat c.toNat).toNat = c.toNat := by
    rw [UInt8.toNat_ofNat']
    omega
  refine ⟨?_, hnat⟩
  simp only [isNum, Bool.and_eq_true, decide_eq_true_eq, UInt8.le_iff_toNat_le, hnat]
  exact ⟨h₁, h₂⟩

/-- A decimal has digits only. -/
theorem isNum_of_mem_decimal {n : Nat} {ch : UInt8} (h : ch ∈ decimal n) : isNum ch = true := by
  obtain ⟨c, hc, rfl⟩ := List.mem_map.mp h
  exact (digit_byte (Nat.isDigit_of_mem_toDigits (by decide) (by decide) hc)).1

/-- It has one at least. -/
theorem decimal_ne_nil (n : Nat) : decimal n ≠ [] := by simp [decimal]

/-- **The digits of a number are read as the number.** -/
theorem digitsFrom_decimal (n : Nat) : digitsFrom 0 (decimal n) = n := by
  have hfold : ∀ (cs : List Char) (a : Nat), (∀ c ∈ cs, c.isDigit = true) →
      digitsFrom a (cs.map fun c => UInt8.ofNat c.toNat) = Nat.ofDigitChars 10 cs a := by
    intro cs
    induction cs with
    | nil => exact fun a _ => rfl
    | cons c cs ih =>
      intro a hall
      rw [List.map_cons, digitsFrom_cons, (digit_byte (hall c List.mem_cons_self)).2,
        Nat.ofDigitChars_cons]
      exact ih _ fun d hd => hall d (List.mem_cons_of_mem _ hd)
  rw [decimal, hfold _ _ fun c hc => Nat.isDigit_of_mem_toDigits (by decide) (by decide) hc,
    Nat.ofDigitChars_ten_toDigits]

/-- A number up to 9 has one. -/
theorem decimal_of_le {n : Nat} (h : n ≤ 9) :
    ∃ ch, decimal n = [ch] ∧ isNum ch = true ∧ ch.toNat - 48 = n := by
  have hdec : decimal n = [UInt8.ofNat n.digitChar.toNat] := by
    rw [decimal, Nat.toDigits_of_lt_base (by omega)]
    rfl
  refine ⟨_, hdec, isNum_of_mem_decimal (n := n) (hdec ▸ List.mem_singleton_self _), ?_⟩
  have := digitsFrom_decimal n
  rw [hdec] at this
  simpa [digitsFrom] using this

/-- A greater one has two at least. -/
theorem decimal_of_gt {n : Nat} (h : 9 < n) : ∃ c d ds, decimal n = c :: d :: ds := by
  have hdec : decimal n = decimal (n / 10) ++ [UInt8.ofNat (n % 10).digitChar.toNat] := by
    rw [decimal, Nat.toDigits_of_base_le (by decide) (by omega), List.map_append]
    rfl
  obtain ⟨c, cs, hcs⟩ := List.exists_cons_of_ne_nil (decimal_ne_nil (n / 10))
  rw [hdec, hcs]
  cases cs with
  | nil => exact ⟨c, _, [], rfl⟩
  | cons d ds => exact ⟨c, d, _, rfl⟩

/-! ### The callbacks -/

/-- **Callbacks that fill a message**: a header is stored under its name by `set`, a part of the
body is appended by `add`, and the end of the message is noted. -/
structure Fills {M : Type} (s : Settings (Target M)) (set : M → Bytes → Bytes → M)
    (add : M → Bytes → M) : Prop where
  field : ∀ p buf t, s.data .header_field p buf t = ({ t with filed := buf }, 0)
  value : ∀ p buf t, s.data .header_value p buf t = ({ t with data := set t.data t.filed buf }, 0)
  body : ∀ p buf t, s.data .body p buf t = ({ t with data := add t.data buf }, 0)
  complete : ∀ p t, s.notify .message_complete p t = ({ t with finished := true }, 0)

/-- The callbacks of a request fill it. -/
theorem fills_request : Fills httpParserSettings1 HttpRequest.setHeader HttpRequest.appendBody :=
  ⟨fun _ _ _ => rfl, fun _ _ _ => rfl, fun _ _ _ => rfl, fun _ _ => rfl⟩

/-- Those of a response fill it. -/
theorem fills_response : Fills httpParserSettings2 HttpResponse.setHeader HttpResponse.appendBody :=
  ⟨fun _ _ _ => rfl, fun _ _ _ => rfl, fun _ _ _ => rfl, fun _ _ => rfl⟩

/-! ### Where the parser stands -/

/-- The fields of the parser that matter later. -/
structure View where
  type : HttpParserType
  http_errno : HttpErrno
  method : HttpMethod
  chunked : Bool
  trailing : Bool
  upgrade : Bool
  skipbody : Bool
  contentlength : Bool
  content_length : Nat
  http_major : Nat
  http_minor : Nat
  status_code : Nat

/-- These fields of a parser. -/
def view (p : HttpParser) : View where
  type := p.type
  http_errno := p.http_errno
  method := p.method
  chunked := p.flags.chunked
  trailing := p.flags.trailing
  upgrade := p.flags.upgrade
  skipbody := p.flags.skipbody
  contentlength := p.flags.contentlength
  content_length := p.content_length
  http_major := p.http_major
  http_minor := p.http_minor
  status_code := p.status_code

variable {M : Type} {s : Settings (Target M)} {set : M → Bytes → Bytes → M} {add : M → Bytes → M}

/-- In the outer loop, in the state `st` after `n` bytes. -/
def Here (st : State) (v : View) (marks : Mark → Option Bytes) (t : Target M) (n : Nat) :
    Point (Target M) :=
  fun p loop l => loop = .outer ∧ p.state = st ∧ view p = v ∧ p.nread = n ∧ l = ⟨marks, t⟩

variable {st st' : State} {v : View} {marks : Mark → Option Bytes} {t : Target M} {d : M} {ch : UInt8}
  {C : Prop} {Q : Nat → Point (Target M)}

/-- A byte in the state `st`. -/
theorem scans_byte (hst : st.parsingHeader = true)
    (h : ∀ q, q.state = st → view q = v →
      ((reexecute ch q).run s ch ⟨marks, t⟩).Exactly C (Q q.nread)) :
    Scans s (Here st v marks t) [ch] C Q := by
  rintro n - hlt p loop l ⟨rfl, hs, hv, rfl, rfl⟩
  have hcount : (addRead 1 p).nread = p.nread + 1 := addRead_nread hlt
  have hq := h (addRead 1 p) hs hv
  rw [hcount] at hq
  exact exactly_byte (exactly_outer (by rw [hs]; exact hst) hlt hq)

/-- A byte that only leads to another state. -/
theorem scans_goto (hst : st.parsingHeader = true)
    (h : ∀ q, q.state = st → reexecute ch q = goto st' q) :
    Scans s (Here st v noMarks t) [ch] True (Here st' v noMarks t) :=
  scans_byte hst fun q hs hv => by
    rw [h q hs]
    exact ⟨trivial, rfl, rfl, hv, rfl, rfl⟩

/-- A byte that is an error. -/
theorem scans_fail {e : HttpErrno} (hst : st.parsingHeader = true) (he : e ≠ .OK)
    (h : ∀ q, q.state = st → reexecute ch q = fail e q) :
    Scans s (Here st v marks t) [ch] False Q :=
  scans_byte hst fun q hs _ => by
    rw [h q hs]
    exact exactly_fail he id

/-- A byte that must be `c`. -/
theorem scans_expect (c : Char) (st' : State) (hst : st.parsingHeader = true)
    (h : ∀ ch q, q.state = st → reexecute ch q = expect c st' ch q) :
    Scans s (Here st v noMarks t) [chr c] True (Here st' v noMarks t) := by
  refine scans_goto hst fun q hs => ?_
  rw [h _ q hs, expect, strictCheck, if_neg (not_not_intro rfl)]

/-- A digit of the version. -/
theorem scans_digit {st₁ : State} (setP : Nat → HttpParser → HttpParser) (setV : Nat → View → View)
    (hst : st.parsingHeader = true)
    (hdigit : ∀ ch q, q.state = st → reexecute ch q = versionDigit ch q fun d => setP d q)
    (hset : ∀ d q, (setP d q).state = st₁ ∧ view (setP d q) = setV d (view q) ∧
      (setP d q).nread = q.nread)
    (hnum : isNum ch = true) :
    Scans s (Here st v noMarks t) [ch] True (Here st₁ (setV (ch.toNat - 48) v) noMarks t) := by
  refine scans_byte hst fun q hs hv => ?_
  obtain ⟨h₁, h₂, h₃⟩ := hset (ch.toNat - 48) q
  rw [hdigit ch q hs, versionDigit, hnum, Bool.not_true, if_neg Bool.false_ne_true]
  exact ⟨trivial, rfl, h₁, by rw [h₂, hv], h₃, rfl⟩

/-- **A number of the version** and the character `c` after it: only one digit is read. -/
theorem scans_versionNumber (st₁ : State) (c : Char) (setP : Nat → HttpParser → HttpParser)
    (setV : Nat → View → View)
    (hst : st.parsingHeader = true) (hst₁ : st₁.parsingHeader = true)
    (hdigit : ∀ ch q, q.state = st → reexecute ch q = versionDigit ch q fun d => setP d q)
    (hset : ∀ d q, (setP d q).state = st₁ ∧ view (setP d q) = setV d (view q) ∧
      (setP d q).nread = q.nread)
    (hchar : ∀ ch q, q.state = st₁ → reexecute ch q = versionChar c st' ch q)
    (hc : isNum (chr c) = false) (m : Nat) :
    Scans s (Here st v noMarks t) (decimal m ++ [chr c]) (m ≤ 9)
      (Here st' (setV m v) noMarks t) := by
  have hone : ∀ {ch}, isNum ch = true → Scans s (Here st v noMarks t) [ch] True
      (Here st₁ (setV (ch.toNat - 48) v) noMarks t) := scans_digit setP setV hst hdigit hset
  by_cases hm : m ≤ 9
  · obtain ⟨ch, hdec, hnum, hval⟩ := decimal_of_le hm
    have hlast : Scans s (Here st₁ (setV m v) noMarks t) [chr c] True
        (Here st' (setV m v) noMarks t) := by
      refine scans_goto hst₁ fun q hs => ?_
      rw [hchar _ q hs, versionChar, if_neg (not_not_intro rfl)]
    have hfirst := hone hnum
    rw [hval] at hfirst
    rw [hdec]
    exact (hfirst.then hlast).congr ⟨fun _ => hm, fun _ => trivial⟩
  · -- the second digit is not the character that is looked for
    obtain ⟨d₁, d₂, ds, hdec⟩ := decimal_of_gt (Nat.lt_of_not_le hm)
    have h₁ : isNum d₁ = true := isNum_of_mem_decimal (n := m) (by simp [hdec])
    have h₂ : isNum d₂ = true := isNum_of_mem_decimal (n := m) (by simp [hdec])
    have hne : d₂ ≠ chr c := by
      rintro rfl
      rw [hc] at h₂
      cases h₂
    have hbad : Scans s (Here st₁ (setV (d₁.toNat - 48) v) noMarks t) [d₂] False
        (Here st' (setV m v) noMarks t) := by
      refine scans_fail (e := .INVALID_VERSION) hst₁ (by decide) fun q hs => ?_
      rw [hchar _ q hs, versionChar, if_pos hne]
    rw [hdec]
    exact ((hone h₁).then (hbad.refuse (ds ++ [chr c]))).congr ⟨False.elim, hm⟩

/-- The value of a digit. -/
theorem digit_le {ch : UInt8} (h : isNum ch = true) : ch.toNat - 48 ≤ 9 := by
  revert ch
  exact @forall_byte _ (by decide +kernel)

/-! ### Inside a header line -/

/-- At the start of a header line or of the empty line, with the message `d` so far. -/
def AtLine (v : View) (d : M) (n : Nat) : Point (Target M) := fun p loop l =>
  loop = .outer ∧ (p.state = .s_header_field_start ∨
    (p.state = .s_header_value_lws ∧ p.header_state ≠ .h_transfer_encoding_chunked)) ∧
    view p = v ∧ p.nread = n ∧ ∃ filed, l = ⟨noMarks, ⟨d, false, filed⟩⟩

/-- After the colon of a header, with the header state `h`. -/
def AtValue (h : HeaderState) (v : View) (t : Target M) (n : Nat) :
    Point (Target M) :=
  fun p loop l => p.header_state = h ∧ Here .s_header_value_discard_ws v noMarks t n p loop l

/-- The flags that a value may set at its end do not matter. -/
theorem view_flagOf {p : HttpParser} (h : p.header_state ≠ .h_transfer_encoding_chunked) :
    view { p with flags := flagOf p.header_state p.flags } = view p := by
  unfold flagOf
  split
  · rfl
  · rfl
  · rfl
  · exact (h ‹_›).elim
  · rfl

/-- The first byte of a line. -/
theorem scans_atLine (hsp : ch ≠ chr ' ' ∧ ch ≠ 9)
    (h : ∀ q filed, view q = v → ((headerFieldStart ch q).run s ch
      ⟨noMarks, ⟨d, false, filed⟩⟩).Exactly C (Q q.nread)) :
    Scans s (AtLine v d) [ch] C Q := by
  rintro n - hlt p loop l ⟨rfl, hs, hv, rfl, filed, rfl⟩
  have hcount : (addRead 1 p).nread = p.nread + 1 := addRead_nread hlt
  rw [List.length_singleton] at hlt ⊢
  refine exactly_byte ?_
  rcases hs with hs | ⟨hs, hne⟩
  · refine exactly_outer (by rw [hs]; rfl) hlt ?_
    unfold reexecute
    rw [show (addRead 1 p).state = .s_header_field_start from hs, ← hcount]
    exact h _ filed hv
  · refine exactly_outer (by rw [hs]; rfl) hlt ?_
    unfold reexecute
    rw [show (addRead 1 p).state = .s_header_value_lws from hs, ← hcount]
    dsimp only
    unfold headerValueLws
    rw [if_neg (not_or.mpr hsp)]
    exact h _ filed ((view_flagOf (p := addRead 1 p) hne).trans hv)

/-- A byte of a name changes the header state and the index only. -/
theorem fieldChar_eq (ch c : UInt8) (p : HttpParser) : fieldChar ch c p =
    { p with header_state := (fieldChar ch c p).header_state, index := (fieldChar ch c p).index } := by
  unfold fieldChar
  cases p.header_state <;> dsimp only [matchWord] <;> first
    | rfl
    | (split <;> rfl)

/-- The header states in a value that says nothing about the body. -/
def plain : HeaderState → Bool
  | .h_general | .h_matching_connection_token_start | .h_matching_connection_keep_alive
  | .h_matching_connection_close | .h_matching_connection_upgrade | .h_matching_connection_token
  | .h_connection_keep_alive | .h_connection_close | .h_connection_upgrade => true
  | _ => false

/-- A plain state is not that of a chunked body. -/
theorem ne_chunked_of_plain {h : HeaderState} (hp : plain h = true) :
    h ≠ .h_transfer_encoding_chunked := by
  rintro rfl
  cases hp

/-- A character of such a value. -/
theorem valueChar_plain (ch : UInt8) {p : HttpParser} (hp : plain p.header_state = true) :
    ∃ q, valueChar ch p = .ok q ∧ plain q.header_state = true ∧ view q = view p ∧
      q.nread = p.nread := by
  unfold valueChar
  cases hst : p.header_state <;> rw [hst] at hp <;> cases hp
  case h_general => exact ⟨p, rfl, by rw [hst]; rfl, rfl, rfl⟩
  case h_matching_connection_token_start =>
    refine ⟨_, rfl, ?_, rfl, rfl⟩
    dsimp only
    repeat' split
    all_goals rfl
  case h_matching_connection_token =>
    dsimp only
    split
    · exact ⟨_, rfl, rfl, rfl, rfl⟩
    · exact ⟨p, rfl, by rw [hst]; rfl, rfl, rfl⟩
  case h_connection_keep_alive | h_connection_close | h_connection_upgrade =>
    dsimp only
    split
    · exact ⟨_, rfl, rfl, rfl, rfl⟩
    split
    · exact ⟨_, rfl, rfl, rfl, rfl⟩
    · exact ⟨p, rfl, by rw [hst]; rfl, rfl, rfl⟩
  all_goals
    refine ⟨_, rfl, ?_, rfl, rfl⟩
    dsimp only [matchWord]
    repeat' split
    all_goals rfl

/-- The byte that ends a value, in the loop of the value. -/
theorem headerValue_cr {k general : Nat} {p : HttpParser}
    (h : ¬(p.header_state = .h_general ∧ general = maxHeaderSize)) :
    byteProg (.value k general) CR p = .data .header_value false 1
      { p with state := .s_header_almost_done }
      (countHeaderSize k { p with state := .s_header_almost_done } fun p => .next p .outer) := by
  show headerValue k general CR p = _
  rw [headerValue, if_neg h, if_pos rfl]

/-- Any other byte of a value, in the loop of the value. -/
theorem headerValue_char {k general : Nat} {p q : HttpParser} (hcr : ch ≠ CR) (hlf : ch ≠ LF)
    (hq : valueChar ch p = .ok q) : byteProg (.value k general) ch p =
      if p.header_state = .h_general ∧ general = maxHeaderSize then .next p (.value (k + 1) 0)
      else if !isHeaderChar ch then fail .INVALID_HEADER_TOKEN p
      else .next q (.value (k + 1) (if p.header_state = .h_general then general + 1 else 0)) := by
  show headerValue k general ch p = _
  rw [headerValue, if_neg hcr, if_neg hlf, hq]

/-- Before the `LF` of a header line. -/
def AfterValue (v : View) (t : Target M) (n : Nat) : Point (Target M) :=
  fun p loop l => p.header_state ≠ .h_transfer_encoding_chunked ∧
    Here .s_header_almost_done v noMarks t n p loop l

/-- The `LF` of a header line. -/
theorem scans_lf {f : Bytes} : Scans s (AfterValue v ⟨d, false, f⟩)
    [LF] True (AtLine v d) := by
  rintro n - hlt p loop l ⟨hne, rfl, hs, hv, rfl, rfl⟩
  refine exactly_byte (exactly_outer (by rw [hs]; rfl) hlt ?_)
  unfold reexecute
  rw [show (addRead 1 p).state = .s_header_almost_done from hs]
  exact ⟨trivial, rfl, .inr ⟨rfl, hne⟩, hv, addRead_nread hlt, f, rfl⟩

/-- A byte after the colon. -/
theorem scans_atValue {h : HeaderState}
    (hbyte : ∀ q, q.header_state = h → q.state = .s_header_value_discard_ws → view q = v →
      ((headerValueDiscardWs ch q).run s ch ⟨noMarks, t⟩).Exactly C (Q q.nread)) :
    Scans s (AtValue h v t) [ch] C Q := by
  rintro n - hlt p loop l ⟨hh, rfl, hs, hv, rfl, rfl⟩
  have hcount : (addRead 1 p).nread = p.nread + 1 := addRead_nread hlt
  have hq := hbyte (addRead 1 p) hh hs hv
  rw [hcount] at hq
  refine exactly_byte (exactly_outer (by rw [hs]; rfl) hlt ?_)
  unfold reexecute
  rw [show (addRead 1 p).state = .s_header_value_discard_ws from hs]
  exact hq

/-- The space before a value. -/
theorem scans_space {h : HeaderState} :
    Scans s (AtValue h v t) [chr ' '] True (AtValue h v t) := by
  refine scans_atValue fun q hh hs hv => ?_
  rw [headerValueDiscardWs, if_pos (.inl rfl)]
  exact ⟨trivial, hh, rfl, hs, hv, rfl, rfl⟩

/-- After the first byte of a value, in a header state with the property `I`. -/
def AfterFirst (I : HeaderState → Prop) (v : View) (bs : Bytes) (t : Target M) (n : Nat) :
    Point (Target M) :=
  fun p loop l => I p.header_state ∧ Here .s_header_value v (onlyMark .header_value bs) t n p loop l

/-- The other bytes of a value are read in a loop of their own. -/
theorem exactly_afterFirst {I : HeaderState → Prop} {bs : Bytes} (cs : Bytes) {n : Nat}
    {p : HttpParser} {loop : Loop}
    {l : Locals (Target M)} {R : Point (Target M)} (hne : cs ≠ [])
    (hlt : n + cs.length < 2 ^ 32)
    (h : AfterFirst I v bs t n p loop l)
    (hrest : ∀ q, I q.header_state → view q = v → q.nread = n + 1 →
      (runBytes s cs q (.value 0 0) ⟨onlyMark .header_value bs, t⟩).Exactly C R) :
    (runBytes s cs p loop l).Exactly (n + 1 ≤ maxHeaderSize ∧ C) R := by
  obtain ⟨hi, rfl, hs, hv, rfl, rfl⟩ := h
  obtain ⟨x, xs, rfl⟩ := List.exists_cons_of_ne_nil hne
  have hlt' : p.nread + 1 < 2 ^ 32 := by
    rw [List.length_cons] at hlt
    omega
  refine exactly_enter (.value 0 0)
    (by rw [hs]; rfl) hlt' ?_ (hrest (addRead 1 p) hi hv (addRead_nread hlt'))
  unfold reexecute
  rw [show (addRead 1 p).state = .s_header_value from hs]
  rfl

/-- The first byte of an ordinary header's value. -/
theorem headerValueStart_ordinary (ch : UInt8) {q : HttpParser}
    (ho : q.header_state.ordinary = true) :
    ∃ x, plain x = true ∧ headerValueStart ch q =
      .mark .header_value (.next { q with state := .s_header_value, index := 0, header_state := x } .outer) := by
  unfold headerValueStart
  cases hst : q.header_state <;> rw [hst] at ho <;> first
    | exact absurd ho (by decide)
    | exact ⟨.h_general, rfl, rfl⟩
    | skip
  refine ⟨_, ?_, rfl⟩
  repeat' split
  all_goals rfl

/-- The first byte of a value after an ordinary name. -/
theorem scans_first {h : HeaderState} (ho : h.ordinary = true) (hsp : ch ≠ chr ' ' ∧ ch ≠ 9)
    (hcr : ch ≠ CR)
    (hlf : ch ≠ LF) : Scans s (AtValue h v t)
    [ch] True (AfterFirst (plain · = true) v [ch] t) := by
  refine scans_atValue fun q hh hs hv => ?_
  obtain ⟨x, hx, hstart⟩ := headerValueStart_ordinary ch (q := q) (by rw [hh]; exact ho)
  rw [headerValueDiscardWs, if_neg (not_or.mpr hsp), if_neg hcr, if_neg hlf, hstart]
  simp only [Prog.run, mark_noMarks, push_onlyMark, List.nil_append]
  exact ⟨trivial, hx, rfl, rfl, hv, rfl, rfl⟩

/-- A digit may stand in a value. -/
theorem isHeaderChar_of_isNum (h : isNum ch = true) :
    isHeaderChar ch = true ∧ ch ≠ chr ' ' ∧ ch ≠ 9 ∧ ch ≠ CR ∧ ch ≠ LF := by
  revert ch
  exact @forall_byte _ (by decide +kernel)

/-- A header that is printed and that the parser does not look for. -/
def Ordinary (e : Bytes × Bytes) : Prop := IsToken e.1 ∧ (nameState e.1).1.ordinary = true ∧
    IsValue e.2

/-- An entry of a map that has none of the headers that are looked for. -/
theorem ordinary_of_mem {m : MapType} {e : Bytes × Bytes} (he : e ∈ m) (htok : IsToken e.1)
    (hlength : m.find (str "content-length") = none) (hencoding : m.find (str "transfer-encoding") = none)
    (hupgrade : m.find (str "upgrade") = none) : (nameState e.1).1.ordinary = true := by
  have hne : ∀ w : String, caseFold (str w) = str w → m.find (str w) = none → e.1.map tolower ≠ str w := by
    intro w hw hnone
    rw [← caseFold_of_isToken htok]
    have := OrdMap.ne_of_find_eq_none caseLess_keyed hnone e he
    rwa [hw] at this
  exact ordinary_nameState htok.2 (hne _ (by decide) hlength) (hne _ (by decide) hencoding)
    (hne _ (by decide) hupgrade)

/-! ### Header lines -/

section

variable (hf : Fills s set add)

include hf

/-- The rest of a name and the colon, in the loop of the name. -/
theorem exactly_name {rest : Bytes} (htok : ∀ ch ∈ rest, (token ch).isSome = true) {k : Nat}
    {m : Bytes}
    {hi : HeaderState × Nat} {p : HttpParser} (hv : view p = v) (hhi : (p.header_state, p.index) = hi)
    (hlt : p.nread + k + rest.length < 2 ^ 32) :
    (runBytes s (rest ++ [chr ':']) p (.field k)
      ⟨onlyMark .header_field m, t⟩).Exactly
      (p.nread + k + rest.length ≤ maxHeaderSize)
      (AtValue (rest.foldl (fun hi ch => fieldStep ch hi) hi).1 v { t with filed := m ++ rest }
        (p.nread + k + rest.length)) := by
  induction rest generalizing k m hi p with
  | nil =>
    rw [List.length_nil, Nat.add_zero] at hlt ⊢
    refine exactly_byte ?_
    have hbyte : byteProg (.field k) (chr ':') p = countHeaderSize k p fun p =>
        .data .header_field false 1 { p with state := .s_header_value_discard_ws }
          (.next { p with state := .s_header_value_discard_ws } .outer) := rfl
    rw [hbyte, ← addRead_nread hlt]
    refine (exactly_countHeaderSize hlt (C := True) ?_).congr (by rw [addRead_nread hlt, and_true])
    simp only [Prog.run, onlyMark_self, hf.field, ne_eq, not_true_eq_false, if_false, setMark_onlyMark,
      push_noMarks, Bool.false_eq_true]
    refine ⟨trivial, congrArg Prod.fst hhi, rfl, rfl, hv, rfl, ?_⟩
    rw [List.append_nil]
  | cons ch rest ih =>
    obtain ⟨c, hc⟩ := Option.isSome_iff_exists.mp (htok ch List.mem_cons_self)
    have hbyte : byteProg (.field k) ch p = .next (fieldChar ch c p) (.field (k + 1)) := by
      show headerField k ch p = _
      unfold headerField
      rw [hc]
    have hnread : (fieldChar ch c p).nread = p.nread := by rw [fieldChar_eq]
    have hview : view (fieldChar ch c p) = v := by
      rw [fieldChar_eq]
      exact hv
    have hstep : ((fieldChar ch c p).header_state, (fieldChar ch c p).index) = fieldStep ch hi := by
      rw [← hhi]
      exact (fieldChar_step hc p).2.2
    have hlen : (fieldChar ch c p).nread + (k + 1) + rest.length = p.nread + k +
        (ch :: rest).length := by
      rw [hnread, List.length_cons]
      omega
    have := ih (fun c hc => htok c (List.mem_cons_of_mem _ hc)) (k := k + 1)
      (m := m ++ [ch]) hview hstep
      (by rw [hlen]; exact hlt)
    rw [hlen, ← List.append_cons] at this
    rw [List.cons_append, runBytes, hbyte]
    simp only [Prog.run, push_onlyMark]
    exact this

/-- **A header name and its colon.** -/
theorem scans_name (name : Bytes) (hne : name ≠ []) (htok : ∀ ch ∈ name, (token ch).isSome = true) :
    Scans s (AtLine v d) (name ++ [chr ':']) True
      (AtValue (nameState name).1 v ⟨d, false, name⟩) := by
  obtain ⟨ch, rest, rfl⟩ := List.exists_cons_of_ne_nil hne
  obtain ⟨c, hc⟩ := Option.isSome_iff_exists.mp (htok ch List.mem_cons_self)
  obtain ⟨h₁, h₂, h₃, h₄⟩ := token_isSome_ne (htok ch List.mem_cons_self)
  have hfirst : Scans s (AtLine v d) [ch] True fun n p loop l =>
      (p.header_state, p.index) = (firstHeaderState c, 0) ∧
        ∃ filed, Here .s_header_field v (onlyMark .header_field [ch])
          ⟨d, false, filed⟩ n p loop l := by
    refine scans_atLine ⟨h₁, h₂⟩ fun q filed hv => ?_
    unfold headerFieldStart
    rw [if_neg h₃, if_neg h₄, hc]
    exact ⟨trivial, rfl, filed, rfl, rfl, hv, rfl, by simp⟩
  rw [List.cons_append]
  refine hfirst.cons ?_
  rintro n - hlt p loop l ⟨hhi, filed, rfl, hs, hv, rfl, rfl⟩
  have hcount : (addRead 1 p).nread = p.nread + 1 := by
    refine addRead_nread (Nat.lt_of_le_of_lt ?_ hlt)
    simp
  have hlen : (addRead 1 p).nread + 0 + rest.length = p.nread + (rest ++ [chr ':']).length := by
    rw [hcount, List.length_append, List.length_singleton]
    omega
  have hrest := exactly_name hf (t := ⟨d, false, filed⟩) (m := [ch]) (k := 0) (p := addRead 1 p)
    (fun c hc => htok c (List.mem_cons_of_mem _ hc)) hv hhi (by rw [hlen]; exact hlt)
  rw [hlen] at hrest
  obtain ⟨x, xs, hx⟩ : ∃ x xs, rest ++ [chr ':'] = x :: xs := List.exists_cons_of_ne_nil (by simp)
  have hname : nameState (ch :: rest) = rest.foldl (fun hi ch => fieldStep ch hi)
      (firstHeaderState c, 0) := by
    rw [nameState, hc, Option.getD_some]
  rw [hname]
  rw [hx] at hlt hrest ⊢
  refine (exactly_enter (.field 0) (by rw [hs]; rfl)
    (by rw [List.length_cons] at hlt; omega) ?_ hrest).congr ?_
  · unfold reexecute
    rw [show (addRead 1 p).state = .s_header_field from hs]
    rfl
  · rw [List.length_cons, and_true]
    exact ⟨And.right, fun h => ⟨by omega, h⟩⟩

/-- A value that makes the head too long is refused, if not before its end then there: a `CR` that
is not looked at is followed by the `LF`. -/
theorem exactly_value_over {rest : Bytes} (hcr : CR ∉ rest) (hlf : LF ∉ rest) {k general : Nat}
    {m : Bytes}
    {p : HttpParser} (hp : plain p.header_state = true)
    (hmax : maxHeaderSize < p.nread + k + rest.length)
    (hlt : p.nread + k + rest.length + 1 < 2 ^ 32) {R : Point (Target M)} :
    (runBytes s (rest ++ [CR, LF]) p (.value k general)
      ⟨onlyMark .header_value m, t⟩).Exactly
      False R := by
  induction rest generalizing k general m p with
  | nil =>
    rw [List.length_nil, Nat.add_zero] at hmax hlt
    rw [List.nil_append]
    by_cases hskip : p.header_state = .h_general ∧ general = maxHeaderSize
    · have hbyte : byteProg (.value k general) CR p = .next p (.value (k + 1) 0) := if_pos hskip
      have hnl : byteProg (.value (k + 1) 0) LF p = countHeaderSize (k + 1)
          { p with state := .s_header_almost_done }
          fun p => .data .header_value false 0 p (headerAlmostDone LF p) := by
        show headerValue (k + 1) 0 LF p = _
        rw [headerValue, if_neg (fun h => absurd h.2 (by decide)), if_neg (by decide), if_pos rfl]
      have hover : countHeaderSize (k + 1) { p with state := .s_header_almost_done }
          (fun p => .data .header_value false 0 p (headerAlmostDone LF p)) =
          fail .HEADER_OVERFLOW (addRead (k + 1) { p with state := .s_header_almost_done }) := by
        refine if_pos ?_
        rw [addRead_nread (by dsimp only; omega)]
        dsimp only
        omega
      rw [runBytes, hbyte]
      exact exactly_of_fail (hnl.trans hover) (by decide) id
    · have hover : countHeaderSize k { p with state := .s_header_almost_done }
        (fun p => .next p .outer) =
          fail .HEADER_OVERFLOW (addRead k { p with state := .s_header_almost_done }) := by
        refine if_pos ?_
        rw [addRead_nread (by dsimp only; omega)]
        exact hmax
      simp only [runBytes, headerValue_cr hskip, hover, Prog.run, fail, onlyMark_self, hf.value,
        ne_eq, not_true_eq_false, if_false]
      exact ⟨id, (by decide : HttpErrno.HEADER_OVERFLOW ≠ .OK)⟩
  | cons ch rest ih =>
    rw [List.mem_cons, not_or] at hcr hlf
    rw [List.length_cons] at hmax hlt
    obtain ⟨q, hq, hqp, -, hqn⟩ := valueChar_plain ch hp
    rw [List.cons_append, runBytes, headerValue_char (Ne.symm hcr.1) (Ne.symm hlf.1) hq]
    split
    · rename_i heq
      split at heq
      · cases heq
        rw [push_onlyMark]
        exact ih hcr.2 hlf.2 hp (by omega) (by omega)
      split at heq
      · cases heq
      · cases heq
        rw [push_onlyMark]
        exact ih hcr.2 hlf.2 hqp (by rw [hqn]; omega) (by rw [hqn]; omega)
    · rename_i heq
      split at heq
      · cases heq
      split at heq
      · cases heq
        exact ⟨id, (by decide : HttpErrno.INVALID_HEADER_TOKEN ≠ .OK)⟩
      · cases heq

/-- The `CR` after a value. -/
theorem exactly_cr {k general : Nat} {m : Bytes} {p : HttpParser} {f : Bytes}
    (hskip : ¬(p.header_state = .h_general ∧ general = maxHeaderSize))
    (hne : p.header_state ≠ .h_transfer_encoding_chunked) (hv : view p = v)
    (hlt : p.nread + k < 2 ^ 32) :
    (runBytes s [CR] p (.value k general)
      ⟨onlyMark .header_value m, ⟨d, false, f⟩⟩).Exactly
      (p.nread + k ≤ maxHeaderSize) (AfterValue v ⟨set d f m, false, f⟩ (p.nread + k)) := by
  refine exactly_byte ?_
  rw [headerValue_cr hskip]
  simp only [Prog.run, onlyMark_self, hf.value, ne_eq, not_true_eq_false, if_false, setMark_onlyMark,
    Bool.false_eq_true]
  refine (exactly_countHeaderSize (p := { p with state := .s_header_almost_done })
    (C := True) hlt ?_).congr
    (by rw [and_true])
  exact ⟨trivial, hne, rfl, rfl, hv, addRead_nread hlt, rfl⟩

/-- The rest of a value that is not too long, up to the `CR`. -/
theorem exactly_value {rest : Bytes} (hcr : CR ∉ rest) (hlf : LF ∉ rest) {k general : Nat} {m : Bytes}
    {p : HttpParser} {f : Bytes} (hp : plain p.header_state = true) (hv : view p = v)
    (hk : general ≤ k)
    (hpos : 0 < p.nread) (hmax : p.nread + k + rest.length ≤ maxHeaderSize) :
    (runBytes s (rest ++ [CR]) p (.value k general)
      ⟨onlyMark .header_value m, ⟨d, false, f⟩⟩).Exactly (∀ ch ∈ rest, isHeaderChar ch = true)
      (AfterValue v ⟨set d f (m ++ rest), false, f⟩ (p.nread + k + rest.length)) := by
  have hskip : ¬(p.header_state = .h_general ∧ general = maxHeaderSize) := by
    rintro ⟨-, hgen⟩
    omega
  induction rest generalizing k general m p with
  | nil =>
    rw [List.length_nil, Nat.add_zero] at hmax ⊢
    rw [List.append_nil]
    have hlt : p.nread + k < 2 ^ 32 := Nat.lt_of_le_of_lt hmax (by decide)
    exact (exactly_cr hf hskip (ne_chunked_of_plain hp) hv hlt).congr
      ⟨fun _ => List.forall_mem_nil _, fun _ => hmax⟩
  | cons ch rest ih =>
    rw [List.mem_cons, not_or] at hcr hlf
    rw [List.length_cons] at hmax
    obtain ⟨q, hq, hqp, hqv, hqn⟩ := valueChar_plain ch hp
    have hbyte : byteProg (.value k general) ch p = _ :=
      headerValue_char (Ne.symm hcr.1) (Ne.symm hlf.1) hq
    rw [if_neg hskip] at hbyte
    rw [List.cons_append]
    by_cases hch : isHeaderChar ch = true
    · rw [hch, Bool.not_true, if_neg Bool.false_ne_true] at hbyte
      rw [runBytes, hbyte]
      have hgen : (if p.header_state = .h_general then general + 1 else 0) ≤ k + 1 := by
        split <;> omega
      have hlen : q.nread + (k + 1) + rest.length = p.nread + k + (ch :: rest).length := by
        rw [hqn, List.length_cons]
        omega
      have := ih hcr.2 hlf.2 (m := m ++ [ch]) hqp (hqv.trans hv) hgen (by rw [hqn]; exact hpos)
        (by rw [hqn]; omega)
        (by rintro ⟨-, h⟩; rw [hqn] at hlen; rw [List.length_cons] at hlen; omega)
      rw [hlen, ← List.append_cons] at this
      simp only [Prog.run, push_onlyMark]
      exact this.congr ⟨fun h => List.forall_mem_cons.mpr ⟨hch, h⟩,
        fun h => (List.forall_mem_cons.mp h).2⟩
    · rw [Bool.eq_false_iff.mpr hch, Bool.not_false, if_pos rfl] at hbyte
      exact exactly_of_fail hbyte (by decide) fun h => hch (h ch List.mem_cons_self)

/-- **A value after an ordinary name**, and the end of its line. -/
theorem scans_value {h : HeaderState} (ho : h.ordinary = true) {f value : Bytes} (hne : value ≠ [])
    (hsp : ∀ ch ∈ value.head?, ch ≠ chr ' ' ∧ ch ≠ 9) (hcr : CR ∉ value) (hlf : LF ∉ value) :
    Scans s (AtValue h v ⟨d, false, f⟩) (value ++ crlf)
      (∀ ch ∈ value.tail, isHeaderChar ch = true) (AtLine v (set d f value)) := by
  obtain ⟨ch, rest, rfl⟩ := List.exists_cons_of_ne_nil hne
  rw [List.mem_cons, not_or] at hcr hlf
  rw [List.cons_append]
  refine .cons (scans_first ho (hsp ch rfl) (Ne.symm hcr.1) (Ne.symm hlf.1)) ?_
  intro n hle hlt p loop l hp
  have hlen : (rest ++ crlf).length = rest.length + 2 := by rw [List.length_append]; rfl
  rw [hlen] at hlt ⊢
  rw [show crlf = [CR, LF] from by decide] at *
  by_cases hmax : n + 1 + 0 + rest.length ≤ maxHeaderSize
  · have hrest := exactly_afterFirst (rest ++ [CR]) (C := ∀ ch ∈ rest, isHeaderChar ch = true)
      (R := AfterValue v ⟨set d f (ch :: rest), false, f⟩ (n + 1 + 0 + rest.length))
      (by simp) (by simp; omega) hp fun q hi hv hn => by
        have := exactly_value hf (d := d) (f := f) (m := [ch]) hcr.2 hlf.2 hi hv (Nat.le_refl 0)
          (by omega)
          (by rw [hn]; exact hmax)
        rwa [hn] at this
    have hall := exactly_append hrest fun _ => scans_lf (d := set d f (ch :: rest)) (v := v)
      (n + 1 + 0 + rest.length) hmax (by simp; omega)
    have hn : n + 1 + 0 + rest.length + [LF].length = n + (rest.length + 2) := by
      rw [List.length_singleton]
      omega
    rw [List.append_assoc, hn] at hall
    exact hall.congr ⟨fun h => ⟨h.2.1, h.1.2⟩, fun h => ⟨⟨by omega, h.2⟩, h.1, trivial⟩⟩
  · have hover := exactly_afterFirst (rest ++ [CR, LF]) (C := False)
      (R := AtLine v (set d f (ch :: rest)) (n + (rest.length + 2))) (by simp)
      (by simp; omega) hp fun q hi hv hn =>
        exactly_value_over hf hcr.2 hlf.2 hi (by rw [hn]; omega) (by rw [hn]; omega)
    exact hover.congr ⟨fun h => h.2.elim, fun h => (hmax (by omega)).elim⟩

/-- **A header line** with an ordinary name. -/
theorem scans_line {name value : Bytes} (hname : name ≠ [])
    (htok : ∀ ch ∈ name, (token ch).isSome = true)
    (ho : (nameState name).1.ordinary = true) (hne : value ≠ [])
    (hsp : ∀ ch ∈ value.head?, ch ≠ chr ' ' ∧ ch ≠ 9)
    (hcr : CR ∉ value) (hlf : LF ∉ value) :
    Scans s (AtLine v d) (name ++ str ": " ++ value ++ crlf)
      (∀ ch ∈ value.tail, isHeaderChar ch = true) (AtLine v (set d name value)) := by
  have hline := (scans_name hf (v := v) (d := d) name hname htok).then
    (scans_space.then (scans_value hf ho (f := name) hne hsp hcr hlf))
  rw [show str ": " = [chr ':'] ++ [chr ' '] from by decide]
  simpa only [List.append_assoc] using hline

/-- **Header lines.** -/
theorem scans_lines {es : List (Bytes × Bytes)}
    (h : ∀ e ∈ es, Ordinary e) :
    Scans s (AtLine v d) (es.flatMap line)
      (∀ e ∈ es, ∀ ch ∈ e.2.tail, isHeaderChar ch = true)
      (AtLine v (es.foldl (fun d e => set d e.1 e.2) d)) := by
  induction es generalizing d with
  | nil => exact .nil nofun
  | cons e es ih =>
    obtain ⟨⟨⟨hne, htok⟩, ho, hval, hcr, hlf, hsp, -⟩, hes⟩ := List.forall_mem_cons.mp h
    have hline := scans_line hf (v := v) (d := d) hne htok ho hval hsp hcr hlf
    rw [List.flatMap_cons]
    exact (hline.append fun _ => ih hes).congr
      ⟨fun h => List.forall_mem_cons.mpr h, fun h => List.forall_mem_cons.mp h⟩

/-! ### The length of the body, and the body -/

/-- The other digits of a length, up to the `CR`. -/
theorem exactly_digits {ds : Bytes} (hall : ∀ ch ∈ ds, isNum ch = true) {a k : Nat} {m : Bytes}
    {p : HttpParser}
    {f : Bytes} (hst : p.header_state = .h_content_length_num)
    (hv : view p = { v with content_length := a })
    (hlt : p.nread + k + ds.length < 2 ^ 32) :
    (runBytes s (ds ++ [CR]) p (.value k 0)
      ⟨onlyMark .header_value m, ⟨d, false, f⟩⟩).Exactly
      (p.nread + k + ds.length ≤ maxHeaderSize ∧
        (ds = [] ∨ digitsFrom a ds / 10 ≤ (ULLONG_MAX - 10) / 10))
      (AfterValue { v with content_length := digitsFrom a ds } ⟨set d f (m ++ ds), false, f⟩
        (p.nread + k + ds.length)) := by
  induction ds generalizing a k m p with
  | nil =>
    rw [List.length_nil, Nat.add_zero] at hlt ⊢
    rw [List.append_nil]
    exact (exactly_cr hf (fun h => absurd h.2 (by decide)) (by rw [hst]; decide) hv hlt).congr
      ⟨fun h => ⟨h, .inl rfl⟩, And.left⟩
  | cons ch ds ih =>
    have hnum := hall ch List.mem_cons_self
    have hdigit := digit_le hnum
    obtain ⟨hchar, hsp, -, hcr, hlf⟩ := isHeaderChar_of_isNum hnum
    have hlength : p.content_length = a := congrArg View.content_length hv
    have hvalue : valueChar ch p = if (ULLONG_MAX - 10) / 10 < a then .error .INVALID_CONTENT_LENGTH
        else .ok { p with content_length := a * 10 + (ch.toNat - 48) } := by
      have hcase : valueChar ch p = contentLengthNum ch p := by
        unfold valueChar
        rw [hst]
      rw [hcase, contentLengthNum, if_neg hsp, hnum, Bool.not_true, if_neg Bool.false_ne_true,
        hlength]
    have hskip : ¬(p.header_state = .h_general ∧ 0 = maxHeaderSize) := fun h => absurd h.2 (by decide)
    rw [List.cons_append, digitsFrom_cons]
    by_cases hmax : (ULLONG_MAX - 10) / 10 < a
    · rw [if_pos hmax] at hvalue
      have hbyte : byteProg (.value k 0) ch p = fail .INVALID_CONTENT_LENGTH p := by
        show headerValue k 0 ch p = _
        rw [headerValue, if_neg hskip, if_neg hcr, if_neg hlf, hchar, Bool.not_true,
          if_neg Bool.false_ne_true, hvalue]
      refine exactly_of_fail hbyte (by decide) fun h => ?_
      have hle := le_digitsFrom (10 * a + (ch.toNat - 48)) ds
      have := h.2.resolve_left (List.cons_ne_nil ch ds)
      omega
    · rw [if_neg hmax] at hvalue
      rw [runBytes, headerValue_char hcr hlf hvalue, if_neg hskip, hchar, Bool.not_true,
        if_neg Bool.false_ne_true,
        if_neg (by rw [hst]; decide)]
      have hlen : p.nread + (k + 1) + ds.length = p.nread + k + (ch :: ds).length := by
        rw [List.length_cons]
        omega
      have := ih (fun c hc => hall c (List.mem_cons_of_mem _ hc)) (a := 10 * a + (ch.toNat - 48))
        (k := k + 1)
        (m := m ++ [ch]) (p := { p with content_length := 10 * a + (ch.toNat - 48) }) hst
        (congrArg (fun w : View => { w with content_length := 10 * a + (ch.toNat - 48) }) hv)
        (by rw [hlen]; exact hlt)
      rw [hlen, ← List.append_cons] at this
      simp only [Prog.run, push_onlyMark, Nat.mul_comm a 10]
      refine this.congr (and_congr_right fun _ => ?_)
      constructor
      · rintro (rfl | h)
        · refine .inr ?_
          simp only [digitsFrom, List.foldl_nil]
          omega
        · exact .inr h
      · exact fun h => .inr (h.resolve_left (List.cons_ne_nil ch ds))

/-- **The line with the length of the body.** -/
theorem scans_length (hv : v.contentlength = false) (n : Nat) :
    Scans s (AtLine v d) (str "content-length: " ++ decimal n ++ crlf)
      (n / 10 ≤ (ULLONG_MAX - 10) / 10)
      (AtLine { v with contentlength := true, content_length := n }
        (set d (str "content-length") (decimal n))) := by
  obtain ⟨ch, ds, hdec⟩ := List.exists_cons_of_ne_nil (decimal_ne_nil n)
  have hall : ∀ c ∈ ch :: ds, isNum c = true := fun c hc => isNum_of_mem_decimal (hdec ▸ hc)
  have hnum := hall ch List.mem_cons_self
  have hval : digitsFrom (ch.toNat - 48) ds = n := by
    rw [← digitsFrom_decimal n, hdec, digitsFrom_cons, Nat.mul_zero, Nat.zero_add]
  obtain ⟨-, hsp, htab, hcr, hlf⟩ := isHeaderChar_of_isNum hnum
  have hfirst : Scans s
      (AtValue .h_content_length v ⟨d, false, str "content-length"⟩) [ch] True
      (AfterFirst (· = .h_content_length_num)
        { v with contentlength := true, content_length := ch.toNat - 48 } [ch]
        ⟨d, false, str "content-length"⟩) := by
    refine scans_atValue fun q hh hs hqv => ?_
    have hflag : q.flags.contentlength = false := (congrArg View.contentlength hqv).trans hv
    rw [headerValueDiscardWs, if_neg (not_or.mpr ⟨hsp, htab⟩), if_neg hcr, if_neg hlf,
      headerValueStart]
    simp only [hh, hnum, hflag, Prog.run, mark_noMarks, push_onlyMark, List.nil_append, Bool.not_true,
      Bool.false_eq_true, if_false]
    exact ⟨trivial, rfl, rfl, rfl,
      congrArg (fun w : View => { w with contentlength := true, content_length := ch.toNat - 48 }) hqv, rfl, rfl⟩
  have hrest : Scans s (AfterFirst (· = .h_content_length_num)
      { v with contentlength := true, content_length := ch.toNat - 48 }
      [ch] ⟨d, false, str "content-length"⟩) (ds ++ crlf)
      (n / 10 ≤ (ULLONG_MAX - 10) / 10)
      (AtLine { v with contentlength := true, content_length := n }
        (set d (str "content-length") (ch :: ds))) := by
    intro m hle hlt p loop l hp
    rw [show crlf = [CR] ++ [LF] from by decide, ← List.append_assoc, List.length_append, List.length_append,
      List.length_singleton, List.length_singleton] at *
    have hdigits := exactly_afterFirst (ds ++ [CR])
      (C := m + 1 + 0 + ds.length ≤ maxHeaderSize ∧
        (ds = [] ∨ digitsFrom (ch.toNat - 48) ds / 10 ≤ (ULLONG_MAX - 10) / 10))
      (R := AfterValue { v with contentlength := true, content_length := digitsFrom (ch.toNat - 48) ds }
        ⟨set d (str "content-length") ([ch] ++ ds), false, str "content-length"⟩
          (m + 1 + 0 + ds.length))
      (by simp) (by simp; omega) hp fun q hi hqv hn => by
        have := exactly_digits hf (v := { v with contentlength := true }) (d := d)
          (f := str "content-length")
          (m := [ch]) (k := 0) (fun c hc => hall c (List.mem_cons_of_mem _ hc)) hi hqv
          (by rw [hn]; omega)
        rwa [hn] at this
    have hend := exactly_append hdigits fun hc => scans_lf (v := { v with
      contentlength := true, content_length := digitsFrom (ch.toNat - 48) ds })
      (d := set d (str "content-length") ([ch] ++ ds))
      (m + 1 + 0 + ds.length) hc.2.1 (by simp; omega)
    have hm : m + 1 + 0 + ds.length + [LF].length = m + (ds.length + 1 + 1) := by
      rw [List.length_singleton]
      omega
    rw [hm, hval] at hend
    refine hend.congr ⟨fun h => ⟨h.2.1, ?_⟩, fun h => ⟨⟨by omega, by omega, .inr h.2⟩, h.1, trivial⟩⟩
    rcases h.1.2.2 with rfl | hlim
    · have := digit_le hnum
      simp only [digitsFrom, List.foldl_nil] at hval
      omega
    · exact hlim
  have hname := scans_name hf (v := v) (d := d) (str "content-length") (by decide) (by decide +kernel)
  rw [show (nameState (str "content-length")).1 = .h_content_length from by decide] at hname
  have hline := hname.then (scans_space.then (hfirst.then hrest))
  rw [show str "content-length: " = str "content-length" ++ [chr ':'] ++ [chr ' '] from by decide, hdec]
  simpa only [List.append_assoc, List.cons_append, List.nil_append] using hline

/-- **A body of the announced length** ends the message. -/
theorem runBytes_body {body m : Bytes} (hne : body ≠ []) {p : HttpParser}
    {l : Locals (Target M)}
    (hs : p.state = .s_body_identity) (hlength : p.content_length = body.length)
    (hup : p.upgrade = false)
    (hl : l.mark .body = ⟨onlyMark .body m, t⟩) :
    ∃ q, runBytes s body p .outer l =
      .next q .outer ⟨noMarks, { t with data := add t.data (m ++ body), finished := true }⟩ ∧
        q.http_errno = p.http_errno ∧ q.upgrade = false := by
  induction body generalizing m p l with
  | nil => exact (hne rfl).elim
  | cons ch rest ih =>
    have hbyte : byteProg .outer ch p = bodyIdentity p := by
      unfold byteProg reexecute
      rw [hs]
      rfl
    rw [List.length_cons] at hlength
    rw [runBytes, hbyte, bodyIdentity]
    simp only [Prog.run, hl, hlength, Nat.add_sub_cancel]
    cases rest with
    | nil =>
      simp [Prog.run, hf.body, hf.complete, messageDone, messageComplete, hup, runBytes]
    | cons c rest =>
      rw [if_neg (by simp)]
      obtain ⟨q, hq, hkept⟩ := ih (m := m ++ [ch])
        (p := { p with content_length := (c :: rest).length })
        (l := ⟨onlyMark .body (m ++ [ch]), t⟩) (by simp) hs rfl hup (by simp)
      refine ⟨q, ?_, hkept⟩
      rw [← List.append_cons] at hq
      simp only [Prog.run, push_onlyMark]
      exact hq

end

/-! ### The empty line -/

/-- What is left to decide when the headers say that there is a body, or say nothing of it. -/
theorem headersDone_eq {q : HttpParser} (hup : q.upgrade = false) (hskip : q.flags.skipbody = false)
    (hchunked : q.flags.chunked = false) (hlength : q.content_length ≠ 0) :
    headersDone LF q =
      if q.content_length ≠ ULLONG_MAX then goto .s_body_identity { q with nread := 0 }
      else if !http_message_needs_eof { q with nread := 0 } then
        messageComplete { q with nread := 0 } fun p => .next p .outer
      else goto .s_body_identity_eof { q with nread := 0 } := by
  unfold headersDone
  rw [strictCheck, if_neg (not_not_intro rfl)]
  dsimp only
  rw [if_neg (fun h => absurd (h.1.symm.trans hup) (by decide)),
    if_neg (fun h => absurd (h.symm.trans hskip) (by decide)),
    if_neg (fun h => absurd (h.symm.trans hchunked) (by decide)), if_neg hlength]

/-- **The empty line after the headers** of a message without a transfer encoding that does not
ask for another protocol: the callback is told, and the rest is the work of `headersDone`. -/
theorem scans_emptyLine (hs : ∀ p t, (s.headersComplete p t).2 = 0) (hmethod : v.method ≠ .CONNECT)
    (hchunked : v.chunked = false) (htrailing : v.trailing = false) (hupgrade : v.upgrade = false)
    {R : Point (Target M)}
    (h : ∀ q filed, view q = v → q.upgrade = false →
      ((headersDone LF q).run s LF ⟨noMarks, (s.headersComplete q ⟨d, false, filed⟩).1⟩).Exactly C R) :
    Scans s (AtLine v d) crlf C fun _ => R := by
  have hcr : Scans s (AtLine v d) [CR] True fun n p loop l =>
      ∃ filed, Here .s_headers_almost_done v noMarks ⟨d, false, filed⟩ n p loop l := by
    refine scans_atLine (by decide) fun q filed hqv => ?_
    exact ⟨trivial, filed, rfl, rfl, hqv, rfl, rfl⟩
  rw [show crlf = [CR] ++ [LF] from by decide]
  refine hcr.then ?_
  rintro n - hlt p loop l ⟨filed, rfl, hst, hpv, rfl, rfl⟩
  refine exactly_byte (exactly_outer (by rw [hst]; rfl) hlt ?_)
  unfold reexecute
  rw [show (addRead 1 p).state = .s_headers_almost_done from hst]
  have hqv : view (addRead 1 p) = v := hpv
  generalize addRead 1 p = q at hqv
  subst hqv
  have hwants : wantsUpgrade q = false := by
    unfold wantsUpgrade
    rw [if_neg (fun h => absurd (h.1.symm.trans hupgrade) (by decide))]
    exact decide_eq_false hmethod
  have hdone := h { q with state := .s_headers_done, upgrade := false } filed rfl rfl
  dsimp only
  rw [headersAlmostDone, strictCheck, if_neg (not_not_intro rfl),
    if_neg (fun h => absurd (h.symm.trans htrailing) (by decide)),
    if_neg (fun h => absurd (h.1.symm.trans hchunked) (by decide)), hwants]
  simp only [Prog.run, hs, headersCompleted, if_true]
  exact hdone

end Http
end Wuchat
