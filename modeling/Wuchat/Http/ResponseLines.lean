/-
# The header lines of a response

`http.cpp`: `HttpResponse::setCookie` and which header lines `HttpResponse::dump`
prints.

`dump` prints its own `connection` line and leaves out the entries of that name, as
`HttpRequest::dump` does; unlike it, it prints an entry named `content-length` next
to the line it makes of the body's size, and nothing prints `m_cookies`.  Nor does it look for CR LF in
what it prints: a reason, a name or a value with one is two lines to the reader.

What is printed is judged as a reader sees it: the text is taken apart at every CR LF, the header lines are those
before the first empty one, and the name of a line goes up to its colon.  `headersPrinted_iff` says when these are the
intended lines.
-/

import Wuchat.Foundation.Lines
import Wuchat.Http.ResponseDump

namespace Wuchat
namespace Http

open Foundation

/-- The arguments of a call of `setCookie`. -/
structure CookieArgs where
  key : Bytes
  val : Bytes
  expired : Int := 0
  path : Bytes := []
  domain : Bytes := []
  secure : Bool := false

section Cookies

-- `Time2Str(ts, format)`, which asks the C library for the local time
variable (Time2Str : Int → Bytes → Bytes)

/-- The text `setCookie` makes of its arguments. -/
def cookieText (c : CookieArgs) : Bytes :=
  c.key ++ str "=" ++ c.val ++
    (if 0 < c.expired then str ";expires=" ++ Time2Str c.expired (str "%a, %d %b %Y %H:%M:%S") ++ str " GMT"
      else []) ++
    (if c.domain.isEmpty then [] else str ";domain=" ++ c.domain) ++
    (if c.path.isEmpty then [] else str ";path=" ++ c.path) ++
    (if c.secure then str ";secure" else [])

/-- `HttpResponse::setCookie`. -/
def HttpResponse.setCookie (r : HttpResponse) (c : CookieArgs) : HttpResponse :=
  { r with cookies := r.cookies ++ [cookieText Time2Str c] }

/-- A sequence of `setCookie` calls. -/
def HttpResponse.setCookies (r : HttpResponse) (cs : List CookieArgs) : HttpResponse :=
  cs.foldl (HttpResponse.setCookie Time2Str) r

/-- Cookies are added in turn. -/
theorem HttpResponse.setCookies_eq (r : HttpResponse) (cs : List CookieArgs) :
    r.setCookies Time2Str cs = { r with cookies := r.cookies ++ cs.map (cookieText Time2Str) } := by
  induction cs generalizing r with
  | nil => rw [List.map_nil, List.append_nil]; rfl
  | cons c cs ih =>
    rw [setCookies, List.foldl_cons, ← setCookies, ih, setCookie]
    simp

end Cookies

/-! ### The lines that are intended -/

/-- The name of a header line. -/
def lineName (l : Bytes) : Bytes := l.takeWhile (· ≠ 58)

/-- The line is one of the name, in any case. -/
def lineNamed (name l : Bytes) : Bool := strcasecmp (lineName l) name = 0

/-- The entry is one of the name, in any case. -/
def named (name : Bytes) (e : Bytes × Bytes) : Bool := strcasecmp e.1 name = 0

/-- The line of an entry. -/
def entryLine (e : Bytes × Bytes) : Bytes := e.1 ++ str ": " ++ e.2

namespace HttpResponse

/-- The first line. -/
def firstLine (r : HttpResponse) : Bytes :=
  str "HTTP/" ++ (decimal (r.version / 16) ++ str ".") ++ (decimal (r.version % 16) ++ str " ") ++
    (decimal r.status ++ str " ") ++ r.phrase

/-- The line for `m_close`. -/
def connectionLine (r : HttpResponse) : Bytes := str "connection: " ++ if r.close then str "close" else str "keep-alive"

/-- The line for the size of a body. -/
def lengthLine (r : HttpResponse) : Bytes := str "content-length: " ++ decimal r.body.length

/-- The entries that have lines of their own. -/
def entries (r : HttpResponse) : List (Bytes × Bytes) :=
  r.headers.filter fun e => !named (str "connection") e && (r.body.isEmpty || !named (str "content-length") e)

/-- The lines for the cookies. -/
def cookieLines (r : HttpResponse) : List Bytes := r.cookies.map fun c => str "set-cookie: " ++ c

end HttpResponse

/-- **The intended header lines of a response**, in some order: one named `connection` for `m_close`, one named
`content-length` with the size of a body, one for every other entry of the headers, and one for each cookie, these in
their order. -/
structure Intended (r : HttpResponse) (hs : List Bytes) : Prop where
  connection : hs.filter (lineNamed (str "connection")) = [r.connectionLine]
  contentLength : r.body ≠ [] → hs.filter (lineNamed (str "content-length")) = [r.lengthLine]
  all : hs.Perm (r.connectionLine :: r.entries.map entryLine ++ (if r.body.isEmpty then [] else [r.lengthLine]) ++
    r.cookieLines)
  cookieOrder : r.cookieLines.Sublist hs

/-- **A text shows the intended headers**: its lines are the first line of the response, the intended header lines, the
first line that is empty, and those of the body. -/
def HeadersPrinted (r : HttpResponse) (text : Bytes) : Prop :=
  ∃ hs, crlfLines text = r.firstLine :: hs ++ [] :: crlfLines r.body ∧ [] ∉ hs ∧ Intended r hs

/-- **The entry is printed as a line of its own**, and as none that `dump` makes itself. -/
def PlainEntry (r : HttpResponse) (e : Bytes × Bytes) : Prop :=
  OneLine (entryLine e) ∧ lineNamed (str "connection") (entryLine e) = false ∧
    (r.body ≠ [] → lineNamed (str "content-length") (entryLine e) = false)

/-- Whether an entry is plain can be computed. -/
instance (r : HttpResponse) (e : Bytes × Bytes) : Decidable (PlainEntry r e) := inferInstanceAs (Decidable (_ ∧ _))

/-! ### The lines that are printed -/

/-- The line break of the dump. -/
theorem crlf_eq : crlf = CRLF := by decide

/-- No digit is a CR. -/
theorem cr_notMem_decimal (n : Nat) : 13 ∉ decimal n := by
  exact fun h => absurd (isNum_of_mem_decimal h) (by decide)

section Printed

variable {r : HttpResponse}

/-- The connection line is one line. -/
theorem oneLine_connectionLine (r : HttpResponse) : OneLine r.connectionLine := by
  refine oneLine_of_cr ?_
  unfold HttpResponse.connectionLine
  split <;> decide

/-- The length line is one line. -/
theorem oneLine_lengthLine (r : HttpResponse) : OneLine r.lengthLine := by
  refine oneLine_of_cr fun h => ?_
  rcases List.mem_append.mp h with h | h
  · exact absurd h (by decide)
  · exact cr_notMem_decimal _ h

/-- The entries that `dump` prints. -/
theorem printed_eq (hws : r.webSocket = false) :
    r.printed = r.headers.filter fun e => !named (str "connection") e := by
  rw [HttpResponse.printed, hws]
  simp [named]

/-- **What `dump` prints**, line by line. -/
theorem crlfLines_dump (hws : r.webSocket = false) :
    crlfLines r.dump = crlfLines r.firstLine ++ (r.connectionLine :: (r.printed.map entryLine).flatMap crlfLines ++
      (if r.body.isEmpty then [] else [r.lengthLine])) ++ [] :: crlfLines r.body := by
  have hline : ∀ es : List (Bytes × Bytes), es.flatMap line = (es.map entryLine).flatMap (· ++ CRLF) := by
    intro es
    rw [List.flatMap_map]
    rfl
  have hconn : r.connection.map entryLine = [r.connectionLine] := by
    rw [HttpResponse.connection, hws, if_neg Bool.false_ne_true]
    rfl
  have hlength : r.contentLength.map entryLine = if r.body.isEmpty then [] else [r.lengthLine] := by
    rw [HttpResponse.contentLength]
    split <;> rfl
  have hdump : r.dump = r.firstLine ++ CRLF ++ (([r.connectionLine] ++ r.printed.map entryLine ++
      if r.body.isEmpty then [] else [r.lengthLine]).flatMap (· ++ CRLF) ++ ([] ++ CRLF ++ r.body)) := by
    rw [dump_eq, head, statusLine, hline, hline, hline, hconn, hlength, crlf_eq]
    simp [HttpResponse.firstLine]
  have hconnLines : crlfLines r.connectionLine = [r.connectionLine] := crlfLines_eq_iff.mpr (oneLine_connectionLine r)
  have hlengthLines : (if r.body.isEmpty then [] else [r.lengthLine]).flatMap crlfLines =
      if r.body.isEmpty then [] else [r.lengthLine] := by
    refine flatMap_crlfLines fun l hl => ?_
    split at hl
    · cases hl
    · rw [List.mem_singleton.mp hl]
      exact oneLine_lengthLine r
  rw [hdump, crlfLines_append, crlfLines_flatMap, crlfLines_append, List.flatMap_append, List.flatMap_append,
    List.flatMap_singleton, hconnLines, hlengthLines]
  simp [crlfLines]

/-- The head of what is printed is intended exactly when it is read as these lines. -/
theorem headersPrinted_dump (hws : r.webSocket = false) : HeadersPrinted r r.dump ↔ OneLine r.firstLine ∧
    [] ∉ (r.printed.map entryLine).flatMap crlfLines ∧
    Intended r (r.connectionLine :: (r.printed.map entryLine).flatMap crlfLines ++
      (if r.body.isEmpty then [] else [r.lengthLine])) := by
  constructor
  · rintro ⟨hs, hlines, hempty, hint⟩
    rw [crlfLines_dump hws, List.append_cancel_right_eq] at hlines
    cases hfirst : crlfLines r.firstLine with
    | nil => exact absurd hfirst (crlfLines_ne_nil _)
    | cons l ls =>
      rw [hfirst, List.cons_append] at hlines
      obtain ⟨rfl, hrest⟩ := List.cons.inj hlines
      have hone : OneLine r.firstLine := oneLine_of_mem _ _ (hfirst ▸ List.mem_cons_self)
      rw [crlfLines_eq_iff.mpr hone] at hfirst
      obtain ⟨-, rfl⟩ := List.cons.inj hfirst
      rw [List.nil_append] at hrest
      subst hrest
      refine ⟨hone, fun h => hempty ?_, hint⟩
      exact List.mem_append_left _ (List.mem_cons_of_mem _ h)
  · rintro ⟨hone, hempty, hint⟩
    refine ⟨_, ?_, fun h => ?_, hint⟩
    · rw [crlfLines_dump hws, crlfLines_eq_iff.mpr hone]
      rfl
    · rcases List.mem_append.mp h with h | h
      · rcases List.mem_cons.mp h with h | h
        · exact absurd (List.append_eq_nil_iff.mp h.symm).1 (by decide)
        · exact hempty h
      · split at h
        · cases h
        · exact absurd (List.append_eq_nil_iff.mp (List.mem_singleton.mp h).symm).1 (by decide)

/-! ### The names of lines -/

/-- A name that a line can have: no colon and no CR in it. -/
def NameOk (name : Bytes) : Prop := 58 ∉ caseFold name ∧ 13 ∉ caseFold name

/-- Whether a name may be asked for can be computed. -/
instance (name : Bytes) : Decidable (NameOk name) := inferInstanceAs (Decidable (_ ∧ _))

/-- What begins with a name and its colon, or its terminator, has the name on its first line. -/
theorem lineNamed_first {name n t l : Bytes} {c : UInt8} {ls : List Bytes} (hn : ∀ d ∈ n, d ≠ 0 ∧ d ≠ 13 ∧ d ≠ 58)
    (hname : n.map tolower = caseFold name) (hc : c = 0 ∨ c = 58) (hl : crlfLines (n ++ c :: t) = l :: ls) :
    lineNamed name l = true := by
  have hne : c ≠ 13 := by
    rcases hc with rfl | rfl <;> decide
  obtain ⟨l', rfl⟩ : ∃ l', l = n ++ c :: l' := by
    clear hname
    induction n generalizing l ls with
    | nil =>
      rw [List.nil_append, crlfLines_cons hne] at hl
      cases hrest : crlfLines t with
      | nil => exact absurd hrest (crlfLines_ne_nil _)
      | cons l' ls' =>
        rw [hrest] at hl
        exact ⟨l', (List.cons.inj hl).1.symm⟩
    | cons d n ih =>
      obtain ⟨hd, hn⟩ := List.forall_mem_cons.mp hn
      rw [List.cons_append, crlfLines_cons hd.2.1] at hl
      cases hrest : crlfLines (n ++ c :: t) with
      | nil => exact absurd hrest (crlfLines_ne_nil _)
      | cons l' ls' =>
        rw [hrest] at hl
        obtain ⟨l'', rfl⟩ := ih hn hrest
        exact ⟨l'', (List.cons.inj hl).1.symm⟩
  have htake : ∀ p : UInt8 → Bool, (∀ d ∈ n, p d = true) → (n ++ c :: l').takeWhile p =
      n ++ (c :: l').takeWhile p := fun p hp => List.takeWhile_append_of_pos hp
  rw [lineNamed, decide_eq_true_iff, strcasecmp_eq_zero_iff, ← hname, lineName,
    htake _ fun d hd => by simpa using (hn d hd).2.2, caseFold, cstr]
  congr 1
  rcases hc with rfl | rfl
  · rw [List.takeWhile_cons_of_pos (by decide), List.takeWhile_append_of_pos fun d hd => by simpa using (hn d hd).1]
    simp
  · rw [List.takeWhile_cons_of_neg (by decide), List.append_nil, List.takeWhile_eq_self_iff.mpr]
    exact fun d hd => by simpa using (hn d hd).1

/-- **The first line of an entry has the name of the entry.** -/
theorem lineNamed_of_named {name l : Bytes} {e : Bytes × Bytes} {ls : List Bytes} (hok : NameOk name)
    (h : named name e = true) (hl : crlfLines (entryLine e) = l :: ls) : lineNamed name l = true := by
  rw [named, decide_eq_true_iff, strcasecmp_eq_zero_iff] at h
  have hfix : tolower 58 = 58 ∧ tolower 13 = 13 := by decide
  have hn : ∀ d ∈ cstr e.1, d ≠ 0 ∧ d ≠ 13 ∧ d ≠ 58 := by
    intro d hd
    have hmem : tolower d ∈ caseFold name := h ▸ List.mem_map_of_mem hd
    refine ⟨?_, ?_, ?_⟩
    · simpa using List.mem_takeWhile_imp hd
    · rintro rfl
      exact hok.2 (hfix.2 ▸ hmem)
    · rintro rfl
      exact hok.1 (hfix.1 ▸ hmem)
  -- behind the name comes its terminator or the colon
  obtain ⟨c, t, hc, heq⟩ : ∃ c t, (c = 0 ∨ c = 58) ∧ entryLine e = cstr e.1 ++ c :: t := by
    have hsplit : cstr e.1 ++ e.1.dropWhile (· ≠ 0) = e.1 := List.takeWhile_append_dropWhile
    cases hrest : e.1.dropWhile (· ≠ 0) with
    | nil =>
      rw [hrest, List.append_nil] at hsplit
      refine ⟨58, 32 :: e.2, .inr rfl, ?_⟩
      rw [hsplit, entryLine, List.append_assoc]
      rfl
    | cons c t =>
      have hzero : c = 0 := by
        have hhead := List.head?_dropWhile_not (fun c : UInt8 => decide (c ≠ 0)) e.1
        rw [hrest] at hhead
        simpa using hhead
      refine ⟨c, t ++ (str ": " ++ e.2), .inl hzero, ?_⟩
      rw [hrest] at hsplit
      rw [← List.cons_append, ← List.append_assoc, hsplit, entryLine, List.append_assoc]
  rw [heq] at hl
  exact lineNamed_first hn h hc hl

/-! ### When the lines are the intended ones -/

/-- The lines that `dump` makes itself have their names. -/
theorem lineNamed_connectionLine (r : HttpResponse) : lineNamed (str "connection") r.connectionLine = true ∧
    lineNamed (str "content-length") r.connectionLine = false := by
  unfold HttpResponse.connectionLine
  split <;> decide

/-- The name of the length line. -/
theorem lineNamed_lengthLine (r : HttpResponse) : lineNamed (str "connection") r.lengthLine = false ∧
    lineNamed (str "content-length") r.lengthLine = true := by
  have hname : lineName r.lengthLine = str "content-length" := by
    have htexts : str "content-length: " = str "content-length" ++ 58 :: str " " := rfl
    have hname : ∀ ch ∈ str "content-length", decide (ch ≠ 58) = true := by decide +kernel
    rw [lineName, HttpResponse.lengthLine, htexts, List.append_assoc, List.takeWhile_append_of_pos hname,
      List.cons_append, List.takeWhile_cons_of_neg (by decide), List.append_nil]
  rw [lineNamed, lineNamed, hname]
  decide

/-- Without the entries of a length that `dump` prints next to its own, what it prints is what it is to print. -/
theorem printed_eq_entries (hws : r.webSocket = false)
    (h : r.body ≠ [] → ∀ e ∈ r.printed, named (str "content-length") e = false) : r.printed = r.entries := by
  rw [printed_eq hws, HttpResponse.entries]
  refine List.filter_congr fun e he => ?_
  cases hconn : named (str "connection") e with
  | true => rfl
  | false =>
    by_cases hbody : r.body = []
    · simp [hbody]
    · have hlen := h hbody e (by rw [printed_eq hws]; exact List.mem_filter.mpr ⟨he, by rw [hconn]; rfl⟩)
      simp [hlen]

/-- **The lines are intended if** there is no cookie and all entries are plain. -/
theorem intended_of_plain (hws : r.webSocket = false) (hcookies : r.cookies = [])
    (hplain : ∀ e ∈ r.printed, PlainEntry r e) : Intended r (r.connectionLine :: r.printed.map entryLine ++
      (if r.body.isEmpty then [] else [r.lengthLine])) := by
  have hnone : ∀ name, (∀ e ∈ r.printed, lineNamed name (entryLine e) = false) →
      (r.printed.map entryLine).filter (lineNamed name) = [] := by
    intro name h
    rw [List.filter_eq_nil_iff]
    intro l hl
    obtain ⟨e, he, rfl⟩ := List.mem_map.mp hl
    rw [h e he]
    exact Bool.false_ne_true
  obtain ⟨hconn, hconn'⟩ := lineNamed_connectionLine r
  obtain ⟨hlen, hlen'⟩ := lineNamed_lengthLine r
  have hlines : r.cookieLines = [] := by rw [HttpResponse.cookieLines, hcookies, List.map_nil]
  constructor
  · rw [List.filter_append, List.filter_cons_of_pos hconn, hnone _ fun e he => (hplain e he).2.1]
    split
    · rfl
    · rw [List.filter_cons_of_neg (by rw [hlen]; exact Bool.false_ne_true)]
      rfl
  · intro hbody
    rw [List.filter_append, List.filter_cons_of_neg (by rw [hconn']; exact Bool.false_ne_true),
      hnone _ fun e he => (hplain e he).2.2 hbody, if_neg (by simpa using hbody), List.filter_cons_of_pos hlen']
    rfl
  · have hentries : r.printed = r.entries := by
      refine printed_eq_entries hws fun hbody e he => ?_
      obtain ⟨hone, -, hlength⟩ := hplain e he
      cases hnamed : named (str "content-length") e with
      | false => rfl
      | true => exact (lineNamed_of_named (by decide) hnamed (crlfLines_eq_iff.mpr hone)).symm.trans (hlength hbody)
    rw [hlines, List.append_nil, hentries]
  · rw [hlines]
    exact List.nil_sublist _

/-- **And only then.** -/
theorem plain_of_intended (hws : r.webSocket = false)
    (h : Intended r (r.connectionLine :: (r.printed.map entryLine).flatMap crlfLines ++
      (if r.body.isEmpty then [] else [r.lengthLine]))) :
    r.cookies = [] ∧ ∀ e ∈ r.printed, PlainEntry r e := by
  -- the own line is the one of its name, so no other line has that
  have hconn : ∀ l ∈ (r.printed.map entryLine).flatMap crlfLines, lineNamed (str "connection") l = false := by
    have hone := h.connection
    rw [List.cons_append, List.filter_cons_of_pos (lineNamed_connectionLine r).1, List.filter_append] at hone
    have hnone := (List.append_eq_nil_iff.mp (List.cons.inj hone).2).1
    exact fun l hl => Bool.eq_false_iff.mpr (List.filter_eq_nil_iff.mp hnone l hl)
  have hlength : r.body ≠ [] →
      ∀ l ∈ (r.printed.map entryLine).flatMap crlfLines, lineNamed (str "content-length") l = false := by
    intro hbody
    have hone := h.contentLength hbody
    rw [if_neg (by simpa using hbody), List.filter_append, List.filter_cons_of_pos (lineNamed_lengthLine r).2,
      List.filter_nil, List.append_left_eq_self, List.filter_cons_of_neg
        (by rw [(lineNamed_connectionLine r).2]; exact Bool.false_ne_true)] at hone
    exact fun l hl => Bool.eq_false_iff.mpr (List.filter_eq_nil_iff.mp hone l hl)
  have hmem : ∀ e ∈ r.printed, ∀ l ∈ crlfLines (entryLine e), l ∈ (r.printed.map entryLine).flatMap crlfLines :=
    fun e he l hl => List.mem_flatMap.mpr ⟨_, List.mem_map_of_mem he, hl⟩
  have hentries : r.printed = r.entries := by
    refine printed_eq_entries hws fun hbody e he => ?_
    cases hnamed : named (str "content-length") e with
    | false => rfl
    | true =>
      cases hlines : crlfLines (entryLine e) with
      | nil => exact absurd hlines (crlfLines_ne_nil _)
      | cons l ls =>
        have hfirst := hlength hbody l (hmem e he l (hlines ▸ List.mem_cons_self))
        exact (lineNamed_of_named (by decide) hnamed hlines).symm.trans hfirst
  -- an entry that is printed as it is to be has a line, which is one of a text that was taken apart
  have hone : ∀ l ∈ r.printed.map entryLine, OneLine l := by
    intro l hl
    have hin := h.all.mem_iff.mpr (List.mem_append_left _ (List.mem_append_left _
      (List.mem_cons_of_mem _ (hentries ▸ hl))))
    rcases List.mem_append.mp hin with hin | hin
    · rcases List.mem_cons.mp hin with rfl | hin
      · exact oneLine_connectionLine r
      · obtain ⟨s, -, hs⟩ := List.mem_flatMap.mp hin
        exact oneLine_of_mem s l hs
    · split at hin
      · cases hin
      · rw [List.mem_singleton.mp hin]
        exact oneLine_lengthLine r
  have hlines : (r.printed.map entryLine).flatMap crlfLines = r.printed.map entryLine := flatMap_crlfLines hone
  have hcount := h.all.length_eq
  rw [hlines, hentries, @List.length_append _ _ r.cookieLines] at hcount
  have hcookies : r.cookieLines = [] := List.length_eq_zero_iff.mp (by omega)
  rw [hlines] at hconn hlength
  refine ⟨List.map_eq_nil_iff.mp hcookies, fun e he => ?_⟩
  have hline : entryLine e ∈ r.printed.map entryLine := List.mem_map_of_mem he
  exact ⟨hone _ hline, hconn _ hline, fun hbody => hlength hbody _ hline⟩

/-- No line of an entry is empty. -/
theorem nil_notMem_entryLines (es : List (Bytes × Bytes)) : [] ∉ es.map entryLine := by
  intro hnil
  obtain ⟨e, -, he⟩ := List.mem_map.mp hnil
  exact absurd (List.append_eq_nil_iff.mp (List.append_eq_nil_iff.mp he).1).2 (by decide)

/-- The first line is one line when the phrase is. -/
theorem oneLine_firstLine_iff (r : HttpResponse) : OneLine r.firstLine ↔ OneLine r.phrase := by
  refine oneLine_append_iff fun h => ?_
  have hdigits := cr_notMem_decimal
  have htexts : 13 ∉ str "HTTP/" ∧ 13 ∉ str "." ∧ 13 ∉ str " " := by decide
  simp only [List.mem_append] at h
  grind

/-- **What `dump` prints is what it is to print exactly when** there is no cookie, the phrase has no CR LF,
and all entries that are printed are plain. -/
theorem headersPrinted_dump_iff (hws : r.webSocket = false) : HeadersPrinted r r.dump ↔
    r.cookies = [] ∧ OneLine r.phrase ∧ ∀ e ∈ r.printed, PlainEntry r e := by
  rw [headersPrinted_dump hws, oneLine_firstLine_iff]
  constructor
  · rintro ⟨hone, -, hint⟩
    obtain ⟨hnone, hall⟩ := plain_of_intended hws hint
    exact ⟨hnone, hone, hall⟩
  · rintro ⟨hnone, hone, hall⟩
    have hlines : (r.printed.map entryLine).flatMap crlfLines = r.printed.map entryLine :=
      flatMap_crlfLines (List.forall_mem_map.mpr fun e he => (hall e he).1)
    rw [hlines]
    exact ⟨hone, nil_notMem_entryLines _, intended_of_plain hws hnone hall⟩

end Printed

/-- **The header lines are the intended ones exactly when** `setCookie` was never called, the phrase has no CR LF, and
every entry that `dump` prints is a line of its own, and as such none named `connection` or, when there is a body,
`content-length`. -/
theorem headersPrinted_iff {r : HttpResponse} (hws : r.webSocket = false) (Time2Str : Int → Bytes → Bytes)
    (cs : List CookieArgs) :
    HeadersPrinted (r.setCookies Time2Str cs) (r.setCookies Time2Str cs).dump ↔
      (r.cookies = [] ∧ cs = []) ∧ OneLine r.phrase ∧
        ∀ e ∈ r.headers, named (str "connection") e = false → PlainEntry r e := by
  rw [HttpResponse.setCookies_eq, headersPrinted_dump_iff (by exact hws), printed_eq (by exact hws),
    List.append_eq_nil_iff, List.map_eq_nil_iff]
  simp only [List.mem_filter, Bool.not_eq_true', and_imp]
  exact Iff.rfl

/-- A page with its type. -/
def pageResponse : HttpResponse :=
  { HttpResponse.new.setHeader (str "Content-Type") (str "text/html") with body := str "hello" }

/-- The statement at a page. -/
theorem headersPrinted_iff_page : HeadersPrinted pageResponse pageResponse.dump :=
  (headersPrinted_iff (r := pageResponse) rfl (fun _ _ => []) []).mpr ⟨⟨rfl, rfl⟩, by decide, by decide +kernel⟩

/-- A page of which the servlet sets the length and a cookie. -/
def lengthResponse : HttpResponse :=
  { HttpResponse.new.setHeader (str "Content-Length") (str "5") with body := str "hello" }

/-- A page with a value of two lines. -/
def splitResponse : HttpResponse := HttpResponse.new.setHeader (str "X-Name") (str "a\r\nconnection: keep-alive")

/-- **The length is printed twice, and no line for the cookie; a value breaks into a `connection` line.** -/
theorem headersPrinted_length :
    (¬ HeadersPrinted (lengthResponse.setCookies (fun _ _ => []) [{ key := str "id", val := str "1" }])
        (lengthResponse.setCookies (fun _ _ => []) [{ key := str "id", val := str "1" }]).dump ∧
      crlfLines (lengthResponse.setCookies (fun _ _ => []) [{ key := str "id", val := str "1" }]).dump =
        [str "HTTP/1.1 200 OK", str "connection: close", str "Content-Length: 5", str "content-length: 5", [],
          str "hello"]) ∧
    ¬ HeadersPrinted splitResponse splitResponse.dump ∧
      crlfLines splitResponse.dump =
        [str "HTTP/1.1 200 OK", str "connection: close", str "X-Name: a", str "connection: keep-alive", [], []] := by
  refine ⟨⟨fun h => ?_, by decide⟩, fun h => ?_, by decide⟩
  · exact absurd ((headersPrinted_dump_iff rfl).mp h).1 (by decide)
  · exact absurd ((headersPrinted_dump_iff rfl).mp h).2.2 (by decide +kernel)

end Http
end Wuchat
