/-
# Encoded queries

A query written as `UrlEncode(key) + "=" + UrlEncode(value)` pairs joined by `&`,
read back with `getParam`.

`UrlEncode` escapes `&` but copies `=`, so the parser cuts a pair at the first `=`
of its key when the key has one (`paramInserts_encodeQuery`): the key is lost, and
the part before its `=` may hide a later pair.  `getParam_encoded_iff` says which
queries read back all the same; those without `=` in their keys always do
(`getParam_encoded`).
-/

import Wuchat.Http.Params

namespace Wuchat
namespace Http

open Foundation

/-- `UrlEncode(key) + "=" + UrlEncode(value)`. -/
def encodePair (p : Bytes × Bytes) : Bytes := UrlEncode p.1 ++ str "=" ++ UrlEncode p.2

/-- The pairs joined by `&`. -/
def encodeQuery (ps : List (Bytes × Bytes)) : Bytes := (str "&").intercalate (ps.map encodePair)

/-- `key + "=" + value` cut at its first `=`. -/
def queryPair (p : Bytes × Bytes) : Bytes × Bytes :=
  ((p.1 ++ 61 :: p.2).takeWhile (· ≠ 61), ((p.1 ++ 61 :: p.2).dropWhile (· ≠ 61)).drop 1)

/-- A text cut at its first `=`. -/
theorem cut_equals {a : Bytes} (ha : 61 ∉ a) (b : Bytes) :
    (a ++ 61 :: b).takeWhile (· ≠ 61) = a ∧ ((a ++ 61 :: b).dropWhile (· ≠ 61)).drop 1 = b := by
  have hall : ∀ c ∈ a, decide (c ≠ 61) = true := fun c hc => decide_eq_true fun h => ha (h ▸ hc)
  rw [List.takeWhile_append_of_pos hall, List.dropWhile_append_of_pos hall, List.takeWhile_cons_of_neg (by simp),
    List.dropWhile_cons_of_neg (by simp), List.append_nil]
  exact ⟨rfl, rfl⟩

/-- A key without an equals sign is read back as it is. -/
theorem queryPair_of_not_mem {p : Bytes × Bytes} (h : 61 ∉ p.1) : queryPair p = p :=
  Prod.ext (cut_equals h p.2).1 (cut_equals h p.2).2

/-- The key the parser makes of a pair has no `=`. -/
theorem not_mem_queryPair (p : Bytes × Bytes) : 61 ∉ (queryPair p).1 := by
  intro h
  simpa using List.mem_takeWhile_imp h

/-- A pair encoded is one text encoded: the equals sign stays. -/
theorem encodePair_eq (p : Bytes × Bytes) : encodePair p = encoded true (p.1 ++ 61 :: p.2) := by
  rw [encodePair, UrlEncode_eq, UrlEncode_eq, encoded_append, encoded_equals, List.append_assoc]
  rfl

/-- So there is an equals sign in it. -/
theorem mem_encodePair (p : Bytes × Bytes) : 61 ∈ encodePair p := by
  rw [encodePair, List.append_assoc]
  exact List.mem_append_right _ List.mem_cons_self

/-- Decoding gives a text back. -/
theorem UrlDecode_encoded (s : Bytes) : UrlDecode (encoded true s) = s := by
  have h := decoded_encoded s []
  rwa [List.append_nil, decoded_nil, List.append_nil, ← UrlDecode_eq] at h

/-- **The pair the parser makes of an encoded pair.** -/
theorem segmentPair_encodePair (p : Bytes × Bytes) : segmentPair id (encodePair p) = some (queryPair p) := by
  rw [segmentPair_of_mem (mem_encodePair p), encodePair_eq]
  have hmem : (61 : UInt8) ∈ p.1 ++ 61 :: p.2 := by simp
  obtain ⟨a, b, hcut, ha⟩ := List.eq_append_cons_of_mem hmem
  have henc : 61 ∉ encoded true a := fun h => ha ((mem_encoded h).2 rfl)
  obtain ⟨hkey, hval⟩ := cut_equals henc (encoded true b)
  obtain ⟨hkey', hval'⟩ := cut_equals ha b
  rw [queryPair, hcut, encoded_append, encoded_equals, hkey, hval, hkey', hval', id, UrlDecode_encoded,
    UrlDecode_encoded]

/-- When every segment has `=`, the pairs are those of the segments. -/
theorem scan_eq_filterMap {flag : UInt8} {trim : Bytes → Bytes} {segs : List Bytes} (h : ∀ seg ∈ segs, 61 ∈ seg) :
    scan flag trim [] segs = segs.filterMap (segmentPair trim) := by
  induction segs with
  | nil => rfl
  | cons seg segs ih =>
    obtain ⟨hseg, hsegs⟩ := List.forall_mem_cons.mp h
    rw [scan_cons_of_mem hseg, List.filterMap_cons_some (segmentPair_of_mem hseg), ih hsegs, List.nil_append]

/-- **What is inserted of an encoded query.** -/
theorem paramInserts_encodeQuery (ps : List (Bytes × Bytes)) :
    paramInserts (encodeQuery ps) 38 id = ps.map queryPair := by
  rcases ps with _ | ⟨p, ps⟩
  · rfl
  · have hsplit : (encodeQuery (p :: ps)).splitOn 38 = (p :: ps).map encodePair := by
      refine List.splitOn_intercalate 38 (fun l hl hmem => ?_) (by simp)
      obtain ⟨q, -, rfl⟩ := List.mem_map.mp hl
      rw [encodePair_eq] at hmem
      exact (mem_encoded hmem).1 rfl
    have hmem : ∀ seg ∈ (p :: ps).map encodePair, 61 ∈ seg := by
      intro seg hseg
      obtain ⟨q, -, rfl⟩ := List.mem_map.mp hseg
      exact mem_encodePair q
    rw [paramInserts_eq (by decide), hsplit, scan_eq_filterMap hmem, List.filterMap_map]
    have hsome : segmentPair id ∘ encodePair = fun q => some (queryPair q) := funext segmentPair_encodePair
    rw [hsome, List.filterMap_eq_map']

/-! ## What `getParam` finds -/

/-- What the form body gives a key, or nothing. -/
def HttpRequest.formValue (r : HttpRequest) (k : Bytes) : Bytes :=
  (firstValue k (paramInserts r.formBody 38 id)).getD []

/-- **What `getParam` finds in a request as its constructor leaves it**: the query's pairs come before
the body's. -/
theorem HttpRequest.getParam_new {r : HttpRequest} (hstatus : r.status = 0) (hparams : r.params = []) (k : Bytes) :
    (r.getParam k).1 =
      ((firstValue k (paramInserts r.query 38 id)).or (firstValue k (paramInserts r.formBody 38 id))).getD [] := by
  have hquery := initQueryParam_of_unset (r := r) (by rw [hstatus]; rfl)
  rw [hstatus, hparams, PARSE_PARAM_eq] at hquery
  have hbits : (0 ||| 1) &&& 2 = 0 := by decide
  rw [getParam, hquery, initBodyParam_of_unset hbits, PARSE_PARAM_eq]
  dsimp only
  rw [find_foldl_insert, find_foldl_insert, show MapType.find [] k = none from rfl, Option.none_or]
  rfl

/-- No other character folds to an equals sign. -/
theorem tolower_eq_equals (c : UInt8) : tolower c = 61 ↔ c = 61 := by
  revert c
  exact forall_byte (by decide +kernel)

/-- Folding the case of a text adds no `=`. -/
theorem mem_of_mem_caseFold {s : Bytes} (h : 61 ∈ caseFold s) : 61 ∈ s := by
  obtain ⟨c, hc, hlow⟩ := List.mem_map.mp h
  exact (tolower_eq_equals c).mp hlow ▸ (List.takeWhile_sublist _).subset hc

/-- Folding the case of a text without NUL loses no `=`. -/
theorem mem_caseFold {s : Bytes} (h0 : 0 ∉ s) (h : 61 ∈ s) : 61 ∈ caseFold s := by
  have hcstr : cstr s = s := List.takeWhile_eq_self_iff.mpr fun c hc => decide_eq_true fun hc0 => h0 (hc0 ▸ hc)
  rw [caseFold, hcstr]
  exact List.mem_map.mpr ⟨61, h, rfl⟩

/-! ## Which encoded queries read back -/

/-- **A key with `=` is not found in its query.** -/
theorem firstValue_of_mem {k : Bytes} (h0 : 0 ∉ k) (h : 61 ∈ k) (ps : List (Bytes × Bytes)) :
    firstValue k (ps.map queryPair) = none := by
  rw [firstValue, List.find?_eq_none.mpr, Option.map_none]
  intro e he heq
  obtain ⟨q, -, rfl⟩ := List.mem_map.mp he
  have hfold : 61 ∈ caseFold (queryPair q).1 := of_decide_eq_true heq ▸ mem_caseFold h0 h
  exact not_mem_queryPair q (mem_of_mem_caseFold hfold)

/-- The pair before whose part up to the `=` in its key is equal to `k`. -/
def hider (k : Bytes) (ps : List (Bytes × Bytes)) : Option (Bytes × Bytes) :=
  ps.find? fun q => 61 ∈ q.1 ∧ caseFold k = caseFold (queryPair q).1

/-- **A key without `=` is found with its value, unless an earlier pair hides it.** -/
theorem firstValue_of_not_mem {before after : List (Bytes × Bytes)} {p : Bytes × Bytes} (h : 61 ∉ p.1)
    (hdist : ∀ q ∈ before, caseFold q.1 ≠ caseFold p.1) :
    firstValue p.1 ((before ++ p :: after).map queryPair) =
      some (((hider p.1 before).map fun q => (queryPair q).2).getD p.2) := by
  induction before with
  | nil =>
    rw [List.nil_append, List.map_cons, queryPair_of_not_mem h, firstValue, List.find?_cons_of_pos (by simp)]
    rfl
  | cons q before ih =>
    obtain ⟨hq, hbefore⟩ := List.forall_mem_cons.mp hdist
    rw [List.cons_append, List.map_cons]
    by_cases hkey : 61 ∈ q.1 ∧ caseFold p.1 = caseFold (queryPair q).1
    · rw [firstValue, List.find?_cons_of_pos (by simpa using hkey.2), hider,
        List.find?_cons_of_pos (by simpa using hkey)]
      rfl
    · have hne : caseFold p.1 ≠ caseFold (queryPair q).1 := by
        intro heq
        refine hkey ⟨not_not.mp fun hmem => ?_, heq⟩
        rw [queryPair_of_not_mem hmem] at heq
        exact hq heq.symm
      rw [firstValue, List.find?_cons_of_neg (by simpa using hne), hider, List.find?_cons_of_neg (by simpa using hkey)]
      exact ih hbefore

/-- The pairs read back although `=` is not escaped: a key with `=` has the value the form body
gives it, and the pair that hides a key without `=`, if there is one, has that key's value behind
its first `=`. -/
def ReadsBack (r : HttpRequest) (ps : List (Bytes × Bytes)) : Prop :=
  ∀ before p after, ps = before ++ p :: after →
    (61 ∈ p.1 → r.formValue p.1 = p.2) ∧
      (61 ∉ p.1 → ∀ q, hider p.1 before = some q → (queryPair q).2 = p.2)

/-- **An encoded query reads back exactly when its keys with `=` do no harm.** -/
theorem getParam_encoded_iff {r : HttpRequest} {ps : List (Bytes × Bytes)} (hstatus : r.status = 0)
    (hparams : r.params = []) (hquery : r.query = encodeQuery ps) (h0 : ∀ p ∈ ps, 0 ∉ p.1)
    (hdist : ps.Pairwise fun p q => caseFold p.1 ≠ caseFold q.1) :
    (∀ p ∈ ps, (r.getParam p.1).1 = p.2) ↔ ReadsBack r ps := by
  have hget : ∀ before p after, ps = before ++ p :: after →
      ((r.getParam p.1).1 = p.2 ↔ (61 ∈ p.1 → r.formValue p.1 = p.2) ∧
        (61 ∉ p.1 → ∀ q, hider p.1 before = some q → (queryPair q).2 = p.2)) := by
    rintro before p after rfl
    rw [HttpRequest.getParam_new hstatus hparams, hquery, paramInserts_encodeQuery]
    by_cases h : 61 ∈ p.1
    · rw [firstValue_of_mem (h0 p (by simp)) h, Option.none_or, and_iff_left fun hn => (hn h).elim]
      exact ⟨fun hv _ => hv, fun hv => hv h⟩
    · have hbefore : ∀ q ∈ before, caseFold q.1 ≠ caseFold p.1 :=
        fun q hq => (List.pairwise_append.mp hdist).2.2 q hq p List.mem_cons_self
      rw [firstValue_of_not_mem h hbefore, Option.some_or, Option.getD_some,
        and_iff_right fun hmem => (h hmem).elim]
      cases hider p.1 before with
      | none => exact ⟨fun _ _ _ hq => (nomatch hq), fun _ => rfl⟩
      | some q => exact ⟨fun hv _ q' hq' => Option.some.inj hq' ▸ hv, fun hv => hv h q rfl⟩
  constructor
  · exact fun hall before p after hps => (hget before p after hps).mp (hall p (hps ▸ by simp))
  · intro hread p hp
    obtain ⟨before, after, hps⟩ := List.append_of_mem hp
    exact (hget before p after hps).mpr (hread before p after hps)

/-- **Keys without `=` read back.** -/
theorem readsBack_of_not_mem {ps : List (Bytes × Bytes)} (h : ∀ p ∈ ps, 61 ∉ p.1) (r : HttpRequest) :
    ReadsBack r ps := by
  rintro before p after rfl
  refine ⟨fun hmem => (h p (by simp) hmem).elim, fun _ q hq => ?_⟩
  rw [hider] at hq
  have hpred := List.find?_some hq
  have hq61 : 61 ∈ q.1 := (of_decide_eq_true hpred).1
  exact (h q (List.mem_append_left _ (List.mem_of_find?_eq_some hq)) hq61).elim

/-- Two pairs with separators in key and value. -/
def escapedPairs : List (Bytes × Bytes) := [(str "a&b", str "c d"), (str "k", str "1+1=2")]

/-- The statement at pairs with escaped characters. -/
theorem getParam_encoded_iff_escaped :
    (escapedPairs.map fun p => ({ HttpRequest.new with query := encodeQuery escapedPairs }.getParam p.1).1) =
      escapedPairs.map Prod.snd :=
  List.map_congr_left ((getParam_encoded_iff rfl rfl rfl (by decide) (by decide)).mpr
    (readsBack_of_not_mem (by decide) _))

/-- The key `a=b` with the value `c`. -/
def equalsPairs : List (Bytes × Bytes) := [(str "a=b", str "c")]

/-- `a=b` is sent as `a=b=c`, and read as the key `a` with the value `b=c`. -/
theorem getParam_equals_lost :
    encodeQuery equalsPairs = str "a=b=c" ∧
      ¬ ∀ p ∈ equalsPairs, ({ HttpRequest.new with query := encodeQuery equalsPairs }.getParam p.1).1 = p.2 := by
  have hlost : ({ HttpRequest.new with query := encodeQuery equalsPairs }.getParam (str "a=b")).1 ≠ str "c" := by
    decide
  exact ⟨by decide, fun h => hlost (h (str "a=b", str "c") (List.mem_singleton.mpr rfl))⟩

end Http
end Wuchat
