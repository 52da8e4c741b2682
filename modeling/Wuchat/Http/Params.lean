/-
# Parameters and cookies

`http.cpp`: the macro `PARSE_PARAM`, the three initialisers of `HttpRequest` that
use it on the query, the body and the `cookie` header, and the accessors that call
them.

The macro looks for `=` from the end of the last pair on, not within a segment: a
segment without `=` is not skipped but becomes the start of the key of the next
segment that has one (`paramInserts_eq`).  So the pairs inserted are those of the
segments exactly when no segment without `=` stands before one with `=`
(`initParams_iff`).
-/

import Mathlib.Data.List.Infix
import Wuchat.Http.Message
import Wuchat.Http.UrlCode

namespace Wuchat
namespace Http

open Foundation

/-- `m.insert(e)` on a map ordered by `CaseInsensitiveLess`. -/
def MapType.insert (m : MapType) (e : Bytes × Bytes) : MapType := OrdMap.insert caseLess e.1 e.2 m

/-- `s.find(c, pos)`. -/
def findFrom (s : Bytes) (c : UInt8) (pos : Nat) : Option Nat :=
  ((s.drop pos).findIdx? (· == c)).map (pos + ·)

/-- The loop of `PARSE_PARAM(s, m, flag, trim)` from `pos` on; `insert` is `m.insert`. -/
def parseParamLoop {μ : Type*} (insert : μ → Bytes × Bytes → μ) (s : Bytes) (flag : UInt8)
    (trim : Bytes → Bytes) : Nat → Nat → μ → μ
  | 0, _, m => m
  | fuel + 1, last, m =>
    match findFrom s 61 last with
    | none => m
    | some key =>
      let k := UrlDecode (trim ((s.drop last).take (key - last)))
      match findFrom s flag key with
      | none => insert m (k, UrlDecode (s.drop (key + 1)))
      | some pos =>
        parseParamLoop insert s flag trim fuel (pos + 1)
          (insert m (k, UrlDecode ((s.drop (key + 1)).take (pos - key - 1))))

/-- `PARSE_PARAM(s, m, flag, trim)`. -/
def PARSE_PARAM {μ : Type*} (insert : μ → Bytes × Bytes → μ) (s : Bytes) (m : μ) (flag : UInt8)
    (trim : Bytes → Bytes) : μ :=
  parseParamLoop insert s flag trim (s.length + 1) 0 m

/-- `strcasestr(haystack.c_str(), needle) != nullptr`. -/
def strcasestr (haystack needle : Bytes) : Bool := decide (caseFold needle <:+: caseFold haystack)

namespace HttpRequest

/-- `initQueryParam()`. -/
def initQueryParam (r : HttpRequest) : HttpRequest :=
  if r.status &&& 0x1 ≠ 0 then r
  else { r with
    params := PARSE_PARAM MapType.insert r.query r.params 38 id
    status := r.status ||| 0x1 }

/-- `initBodyParam()`. -/
def initBodyParam (r : HttpRequest) : HttpRequest :=
  if r.status &&& 0x2 ≠ 0 then r
  else
    let content_type := r.getHeader (str "content-type")
    if !strcasestr content_type (str "application/x-www-form-urlencoded") then
      { r with status := r.status ||| 0x2 }
    else { r with
      params := PARSE_PARAM MapType.insert r.body r.params 38 id
      status := r.status ||| 0x2 }

/-- `initCookies()`. -/
def initCookies (r : HttpRequest) : HttpRequest :=
  if r.status &&& 0x4 ≠ 0 then r
  else
    let cookie := r.getHeader (str "cookie")
    if cookie.isEmpty then { r with status := r.status ||| 0x4 }
    else { r with
      cookies := PARSE_PARAM MapType.insert cookie r.cookies 59 Trim
      status := r.status ||| 0x4 }

/-- `getParam(key, def = "")`, and the request it leaves. -/
def getParam (r : HttpRequest) (key : Bytes) (dflt : Bytes := []) : Bytes × HttpRequest :=
  let r := r.initQueryParam.initBodyParam
  ((r.params.find key).getD dflt, r)

end HttpRequest

/-! ## The loop over the segments -/

/-- The `m.insert` calls of `PARSE_PARAM`, in order. -/
def paramInserts (s : Bytes) (flag : UInt8) (trim : Bytes → Bytes) : List (Bytes × Bytes) :=
  PARSE_PARAM (fun l e => l ++ [e]) s [] flag trim

/-- The pair of a segment: what stands before its first `=` and what stands after it. -/
def segmentPair (trim : Bytes → Bytes) (seg : Bytes) : Option (Bytes × Bytes) :=
  if 61 ∈ seg then
    some (UrlDecode (trim (seg.takeWhile (· ≠ 61))), UrlDecode ((seg.dropWhile (· ≠ 61)).drop 1))
  else none

/-- The pairs of the segments of a text. -/
def segmentPairs (s : Bytes) (flag : UInt8) (trim : Bytes → Bytes) : List (Bytes × Bytes) :=
  (s.splitOn flag).filterMap (segmentPair trim)

/-- The pairs `PARSE_PARAM` makes of the segments: `pre` is the text before the segment that
no pair has used. -/
def scan (flag : UInt8) (trim : Bytes → Bytes) : Bytes → List Bytes → List (Bytes × Bytes)
  | _, [] => []
  | pre, seg :: segs =>
    if 61 ∈ seg then
      (UrlDecode (trim (pre ++ seg.takeWhile (· ≠ 61))), UrlDecode ((seg.dropWhile (· ≠ 61)).drop 1)) ::
        scan flag trim [] segs
    else scan flag trim (pre ++ seg ++ [flag]) segs

section Scan

variable {flag : UInt8} {trim : Bytes → Bytes}

/-- No segment is left. -/
theorem scan_nil (pre : Bytes) : scan flag trim pre [] = [] := rfl

/-- A segment with an equals sign ends a pair. -/
theorem scan_cons_of_mem {pre seg : Bytes} (h : 61 ∈ seg) (segs : List Bytes) :
    scan flag trim pre (seg :: segs) =
      (UrlDecode (trim (pre ++ seg.takeWhile (· ≠ 61))), UrlDecode ((seg.dropWhile (· ≠ 61)).drop 1)) ::
        scan flag trim [] segs :=
  if_pos h

/-- One without is part of the next key. -/
theorem scan_cons_of_not_mem {pre seg : Bytes} (h : 61 ∉ seg) (segs : List Bytes) :
    scan flag trim pre (seg :: segs) = scan flag trim (pre ++ seg ++ [flag]) segs :=
  if_neg h

/-- A character that is not `=` joins the text no pair has used, be it a separator or not. -/
theorem scan_splitOn_cons {x : UInt8} (hx : x ≠ 61) (pre t : Bytes) :
    scan flag trim pre ((x :: t).splitOn flag) = scan flag trim (pre ++ [x]) (t.splitOn flag) := by
  rw [List.splitOn_cons_eq_if_modifyHead]
  split
  · rename_i hf
    rw [scan_cons_of_not_mem List.not_mem_nil, List.append_nil, eq_of_beq hf]
  · obtain ⟨seg, segs, hsplit⟩ := List.exists_cons_of_ne_nil (List.splitOn_ne_nil flag t)
    have hmem : 61 ∈ x :: seg ↔ 61 ∈ seg := by
      rw [List.mem_cons, or_iff_right (Ne.symm hx)]
    rw [hsplit, List.modifyHead_cons]
    by_cases h : 61 ∈ seg
    · rw [scan_cons_of_mem (hmem.mpr h), scan_cons_of_mem h, List.takeWhile_cons_of_pos (by simpa using hx),
        List.dropWhile_cons_of_pos (by simpa using hx), List.append_cons]
    · rw [scan_cons_of_not_mem (mt hmem.mp h), scan_cons_of_not_mem h, List.append_cons pre x seg]

/-- The same of a text without `=`. -/
theorem scan_splitOn_append {a : Bytes} (ha : 61 ∉ a) (pre t : Bytes) :
    scan flag trim pre ((a ++ t).splitOn flag) = scan flag trim (pre ++ a) (t.splitOn flag) := by
  induction a generalizing pre with
  | nil => rw [List.nil_append, List.append_nil]
  | cons x a ih =>
    rw [List.mem_cons, not_or] at ha
    rw [List.cons_append, scan_splitOn_cons (Ne.symm ha.1), ih ha.2, ← List.append_cons]

/-- Without `=` there is no pair. -/
theorem scan_eq_nil {t : Bytes} (ht : 61 ∉ t) (pre : Bytes) : scan flag trim pre (t.splitOn flag) = [] := by
  have h : scan flag trim pre ((t ++ []).splitOn flag) = scan flag trim (pre ++ t) (([] : Bytes).splitOn flag) :=
    scan_splitOn_append ht pre []
  rw [List.append_nil] at h
  rw [h, List.splitOn_nil, scan_cons_of_not_mem List.not_mem_nil, scan_nil]

/-- The first pair when no separator follows its `=`. -/
theorem scan_last {a v : Bytes} (ha : 61 ∉ a) (hf : flag ≠ 61) (hv : flag ∉ v) :
    scan flag trim [] ((a ++ 61 :: v).splitOn flag) = [(UrlDecode (trim a), UrlDecode v)] := by
  have hv' : flag ∉ 61 :: v := by simp [hf, hv]
  rw [scan_splitOn_append ha, List.splitOn_eq_singleton hv', scan_cons_of_mem List.mem_cons_self, scan_nil,
    List.takeWhile_cons_of_neg (by simp), List.dropWhile_cons_of_neg (by simp), List.nil_append, List.append_nil]
  rfl

/-- The first pair when a separator follows its `=`. -/
theorem scan_next {a v : Bytes} (ha : 61 ∉ a) (hf : flag ≠ 61) (hv : flag ∉ v) (rest : Bytes) :
    scan flag trim [] ((a ++ 61 :: (v ++ flag :: rest)).splitOn flag) =
      (UrlDecode (trim a), UrlDecode v) :: scan flag trim [] (rest.splitOn flag) := by
  have hv' : flag ∉ 61 :: v := by simp [hf, hv]
  rw [scan_splitOn_append ha, ← List.cons_append, List.splitOn_append_cons_self_of_not_mem hv',
    scan_cons_of_mem List.mem_cons_self,
    List.takeWhile_cons_of_neg (by simp), List.dropWhile_cons_of_neg (by simp), List.nil_append, List.append_nil]
  rfl

/-! ## The loop -/

/-- The character is not found. -/
theorem findFrom_eq_none {s : Bytes} {c : UInt8} {pos : Nat} (h : c ∉ s.drop pos) : findFrom s c pos = none := by
  rw [findFrom, List.findIdx?_eq_none_iff.mpr, Option.map_none]
  exact fun x hx => beq_false_of_ne fun hc => h (hc ▸ hx)

/-- It is found behind what does not have it. -/
theorem findFrom_eq_some {s a b : Bytes} {c : UInt8} {pos : Nat} (ha : c ∉ a) (hs : s.drop pos = a ++ c :: b) :
    findFrom s c pos = some (pos + a.length) := by
  have hnone : a.findIdx? (· == c) = none :=
    List.findIdx?_eq_none_iff.mpr fun x hx => beq_false_of_ne fun hc => ha (hc ▸ hx)
  rw [findFrom, hs, List.findIdx?_append, hnone, List.findIdx?_cons, beq_self_eq_true, if_pos rfl]
  simp

/-- The text behind a prefix of what stands at a position. -/
theorem drop_add_length {s a b : Bytes} {pos : Nat} (hs : s.drop pos = a ++ b) : s.drop (pos + a.length) = b := by
  rw [← List.drop_drop, hs, List.drop_left]

/-- **The loop makes the pairs of `scan`**, with fuel for every character left. -/
theorem parseParamLoop_eq (hf : flag ≠ 61) (s : Bytes) :
    ∀ (fuel pos : Nat) (acc : List (Bytes × Bytes)), s.length < fuel + pos →
      parseParamLoop (fun l e => l ++ [e]) s flag trim fuel pos acc =
        acc ++ scan flag trim [] ((s.drop pos).splitOn flag)
  | 0, pos, acc, h => by
    rw [List.drop_eq_nil_of_le (by omega), scan_eq_nil List.not_mem_nil, List.append_nil, parseParamLoop]
  | fuel + 1, pos, acc, h => by
    rw [parseParamLoop]
    by_cases h61 : 61 ∈ s.drop pos
    · obtain ⟨a, b, ht, ha⟩ := List.eq_append_cons_of_mem h61
      have hkey : s.drop (pos + a.length) = 61 :: b := drop_add_length ht
      have hval : s.drop (pos + a.length + 1) = b := by rw [← List.drop_drop, hkey]; rfl
      simp only [findFrom_eq_some ha ht, ht, Nat.add_sub_cancel_left, List.take_left, hval]
      by_cases hfb : flag ∈ b
      · obtain ⟨v, rest, rfl, hv⟩ := List.eq_append_cons_of_mem hfb
        have hfind : findFrom s flag (pos + a.length) = some (pos + a.length + (61 :: v).length) :=
          findFrom_eq_some (by simp [hf, hv]) hkey
        have hrest : s.drop (pos + a.length + (v.length + 1) + 1) = rest := by
          have hcons : s.drop (pos + a.length + 1) = (v ++ [flag]) ++ rest := by simpa using hval
          have := drop_add_length hcons
          rwa [List.length_append, List.length_singleton, Nat.add_right_comm] at this
        have htake : (v ++ flag :: rest).take (pos + a.length + (v.length + 1) - (pos + a.length) - 1) = v := by
          rw [show pos + a.length + (v.length + 1) - (pos + a.length) - 1 = v.length by omega, List.take_left]
        simp only [hfind, List.length_cons, htake]
        rw [parseParamLoop_eq hf s fuel _ _ (by omega), hrest, scan_next ha hf hv, List.append_assoc,
          List.singleton_append]
      · have hfind : findFrom s flag (pos + a.length) = none :=
          findFrom_eq_none (by rw [hkey]; simp [hf, hfb])
        simp only [hfind]
        rw [scan_last ha hf hfb]
    · rw [findFrom_eq_none h61, scan_eq_nil h61, List.append_nil]

/-- **What `PARSE_PARAM` inserts.** -/
theorem paramInserts_eq (hf : flag ≠ 61) (s : Bytes) :
    paramInserts s flag trim = scan flag trim [] (s.splitOn flag) := by
  rw [paramInserts, PARSE_PARAM, parseParamLoop_eq hf s _ 0 [] (by omega), List.drop_zero, List.nil_append]

/-- Into whatever container, the macro inserts the same pairs in the same order. -/
theorem parseParamLoop_foldl {μ : Type*} (insert : μ → Bytes × Bytes → μ) (s : Bytes) (m : μ) :
    ∀ (fuel pos : Nat) (acc : List (Bytes × Bytes)),
      parseParamLoop insert s flag trim fuel pos (acc.foldl insert m) =
        (parseParamLoop (fun l e => l ++ [e]) s flag trim fuel pos acc).foldl insert m
  | 0, _, _ => rfl
  | fuel + 1, pos, acc => by
    rw [parseParamLoop, parseParamLoop]
    cases findFrom s 61 pos with
    | none => rfl
    | some key =>
      dsimp only
      cases findFrom s flag key with
      | none => rw [List.foldl_append, List.foldl_cons, List.foldl_nil]
      | some next =>
        dsimp only
        rw [← parseParamLoop_foldl insert s m fuel, List.foldl_append, List.foldl_cons, List.foldl_nil]

/-- The macro inserts its pairs in turn. -/
theorem PARSE_PARAM_eq {μ : Type*} (insert : μ → Bytes × Bytes → μ) (s : Bytes) (m : μ) :
    PARSE_PARAM insert s m flag trim = (paramInserts s flag trim).foldl insert m :=
  parseParamLoop_foldl insert s m _ 0 []

/-! ## When the pairs are those of the segments -/

/-- The pair of a segment with an equals sign. -/
theorem segmentPair_of_mem {seg : Bytes} (h : 61 ∈ seg) :
    segmentPair trim seg =
      some (UrlDecode (trim (seg.takeWhile (· ≠ 61))), UrlDecode ((seg.dropWhile (· ≠ 61)).drop 1)) :=
  if_pos h

/-- A segment without one has none. -/
theorem segmentPair_of_not_mem {seg : Bytes} (h : 61 ∉ seg) : segmentPair trim seg = none := if_neg h

/-- Text before a separator shows in the key made of it. -/
def KeyShows (flag : UInt8) (trim : Bytes → Bytes) : Prop :=
  ∀ pre k, UrlDecode (trim (pre ++ flag :: k)) ≠ UrlDecode (trim k)

/-- **The pairs of `scan` are those of the segments** when every segment with `=` follows segments
with `=` only, and at no other time. -/
theorem scan_eq_filterMap_iff (hkey : KeyShows flag trim) {pre : Bytes} (hpre : pre = [] ∨ ∃ p, pre = p ++ [flag])
    (segs : List Bytes) :
    scan flag trim pre segs = segs.filterMap (segmentPair trim) ↔
      (pre = [] ∨ ∀ b ∈ segs, 61 ∉ b) ∧ segs.Pairwise fun a b => 61 ∈ b → 61 ∈ a := by
  induction segs generalizing pre with
  | nil => simp [scan_nil]
  | cons seg segs ih =>
    rw [List.pairwise_cons]
    by_cases h : 61 ∈ seg
    · rw [scan_cons_of_mem h, List.filterMap_cons_some (segmentPair_of_mem h), List.cons.injEq, ih (.inl rfl)]
      have hhead : (UrlDecode (trim (pre ++ seg.takeWhile (· ≠ 61))), UrlDecode ((seg.dropWhile (· ≠ 61)).drop 1)) =
          (UrlDecode (trim (seg.takeWhile (· ≠ 61))), UrlDecode ((seg.dropWhile (· ≠ 61)).drop 1)) ↔ pre = [] := by
        refine ⟨fun heq => hpre.resolve_right ?_, fun hnil => by rw [hnil, List.nil_append]⟩
        rintro ⟨p, rfl⟩
        rw [Prod.mk.injEq, List.append_assoc, List.singleton_append] at heq
        exact hkey p _ heq.1
      rw [hhead]
      constructor
      · rintro ⟨hnil, -, hrest⟩
        exact ⟨.inl hnil, fun _ _ _ => h, hrest⟩
      · rintro ⟨hnil | hall, -, hrest⟩
        · exact ⟨hnil, .inl rfl, hrest⟩
        · exact (hall seg List.mem_cons_self h).elim
    · rw [scan_cons_of_not_mem h, List.filterMap_cons_none (segmentPair_of_not_mem h), ih (.inr ⟨_, rfl⟩)]
      have hne : pre ++ seg ++ [flag] ≠ [] := List.append_ne_nil_of_right_ne_nil _ (List.cons_ne_nil _ _)
      constructor
      · rintro ⟨hall, hrest⟩
        have hall := hall.resolve_left hne
        exact ⟨.inr (List.forall_mem_cons.mpr ⟨h, hall⟩), fun b hb hmem => (hall b hb hmem).elim, hrest⟩
      · rintro ⟨-, hbare, hrest⟩
        exact ⟨.inr fun b hb hmem => h (hbare b hb hmem), hrest⟩

end Scan

/-- A separator in front makes a decoded text longer. -/
theorem length_decoded_lt {c : UInt8} (hc : Apart c) (a b : Bytes) :
    (decoded b).length < (decoded (a ++ c :: b)).length := by
  rw [decoded_append hc, List.length_append, List.length_cons]
  omega

/-- The ampersand is apart from what is decoded. -/
theorem apart_ampersand : Apart 38 := ⟨by decide, by decide, rfl⟩

/-- So is the semicolon. -/
theorem apart_semicolon : Apart 59 := ⟨by decide, by decide, rfl⟩

/-- A key behind an ampersand shows what was swallowed. -/
theorem keyShows_ampersand : KeyShows 38 id := by
  intro pre k h
  rw [UrlDecode_eq, UrlDecode_eq] at h
  exact absurd (congrArg List.length h) (length_decoded_lt apart_ampersand pre k).ne'

/-- So does one behind a semicolon, though it is trimmed. -/
theorem keyShows_semicolon : KeyShows 59 Trim := by
  intro pre k h
  rw [UrlDecode_eq, UrlDecode_eq, Trim_append rfl] at h
  have hlt := length_decoded_lt apart_semicolon (pre.dropWhile isDelimit) (k.rdropWhile isDelimit)
  rw [h] at hlt
  exact absurd (length_decoded_Trim_le k) (by omega)

/-! ## What is found in the map -/

/-- The first of the pairs with a key equal to `k`. -/
def firstValue (k : Bytes) (es : List (Bytes × Bytes)) : Option Bytes :=
  (es.find? fun e => caseFold k = caseFold e.1).map Prod.snd

/-- **Of the inserted pairs the first with an equal key is found**, unless the map had the key
before. -/
theorem find_foldl_insert (m : MapType) (k : Bytes) (es : List (Bytes × Bytes)) :
    (es.foldl MapType.insert m).find k = (m.find k).or (firstValue k es) :=
  OrdMap.find_foldl_insert caseLess_keyed k es m

/-! ## The initialisers -/

/-- No segment without `=` stands before a segment with `=`. -/
def BareLast (s : Bytes) (flag : UInt8) : Prop := (s.splitOn flag).Pairwise fun a b => 61 ∈ b → 61 ∈ a

/-- Whether only the last segment has no equals sign can be computed. -/
instance (s : Bytes) (flag : UInt8) : Decidable (BareLast s flag) :=
  inferInstanceAs (Decidable ((s.splitOn flag).Pairwise _))

/-- An initialiser that turns the map `before` into `after` inserts the pairs of the segments of
`s`, in order, and the first of two equal keys stays. -/
def InsertsSegments (s : Bytes) (flag : UInt8) (trim : Bytes → Bytes) (before after : MapType) : Prop :=
  paramInserts s flag trim = segmentPairs s flag trim ∧
    after = (segmentPairs s flag trim).foldl MapType.insert before

/-- `PARSE_PARAM` inserts the pairs of the segments exactly when no segment without `=` stands
before one with `=`. -/
theorem insertsSegments_iff {flag : UInt8} {trim : Bytes → Bytes} (hf : flag ≠ 61) (hkey : KeyShows flag trim)
    (s : Bytes) (m : MapType) :
    InsertsSegments s flag trim m (PARSE_PARAM MapType.insert s m flag trim) ↔ BareLast s flag := by
  have hscan := scan_eq_filterMap_iff hkey (.inl rfl) (s.splitOn flag)
  rw [← paramInserts_eq hf, ← segmentPairs, and_iff_right (.inl rfl)] at hscan
  rw [InsertsSegments, PARSE_PARAM_eq, BareLast, ← hscan]
  exact ⟨And.left, fun h => ⟨h, by rw [h]⟩⟩

namespace HttpRequest

/-- What `initBodyParam` parses: the body of a form, and nothing of another body. -/
def formBody (r : HttpRequest) : Bytes :=
  if strcasestr (r.getHeader (str "content-type")) (str "application/x-www-form-urlencoded") then r.body else []

/-- A query that was not read is read. -/
theorem initQueryParam_of_unset {r : HttpRequest} (h : r.status &&& 1 = 0) :
    r.initQueryParam = { r with
      params := PARSE_PARAM MapType.insert r.query r.params 38 id
      status := r.status ||| 1 } :=
  if_neg (not_not.mpr h)

/-- So is a body. -/
theorem initBodyParam_of_unset {r : HttpRequest} (h : r.status &&& 2 = 0) :
    r.initBodyParam = { r with
      params := PARSE_PARAM MapType.insert r.formBody r.params 38 id
      status := r.status ||| 2 } := by
  rw [initBodyParam, if_neg (not_not.mpr h), formBody]
  dsimp only
  cases strcasestr (r.getHeader (str "content-type")) (str "application/x-www-form-urlencoded") <;> rfl

/-- So are cookies. -/
theorem initCookies_of_unset {r : HttpRequest} (h : r.status &&& 4 = 0) :
    r.initCookies = { r with
      cookies := PARSE_PARAM MapType.insert (r.getHeader (str "cookie")) r.cookies 59 Trim
      status := r.status ||| 4 } := by
  rw [initCookies, if_neg (not_not.mpr h)]
  dsimp only
  cases r.getHeader (str "cookie") <;> rfl

/-- A search form, with a cookie header of two cookies. -/
def searchRequest : HttpRequest :=
  { (HttpRequest.new.setHeader (str "Content-Type") (str "application/x-www-form-urlencoded")).setHeader
      (str "Cookie") (str "yummy_cookie=choco; tasty_cookie=strawberry") with
    query := str "q=url+%E5%8F%82&oq", body := str "title=test&sub%5B1%5D=1" }

/-- The query `a&b=1`. -/
def flagQuery : HttpRequest := { HttpRequest.new with query := str "a&b=1" }

end HttpRequest

end Http
end Wuchat
