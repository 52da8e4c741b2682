/-
# Percent encoding

`ext.cpp`: `StringUtil::UrlEncode`, `StringUtil::UrlDecode` and `StringUtil::Trim`.

Both loops create the string they return at the first character they change and
return their argument when they change none; `UrlEncode_eq` and `UrlDecode_eq`
read them as functions of the characters (`encoded`, `decoded`).  Decoding undoes
encoding (`UrlDecode_UrlEncode`, and `decoded_encoded` in front of other text), and
neither looks across a character that is neither `%`, `+` nor a hexadecimal digit
(`decoded_append`): a separator cuts a text into parts that decode alone.

The table `uri_chars` leaves `=` as it is (`encoded_equals`), which the comment
above `UrlEncode` does not list.
-/

import Mathlib.Data.List.DropRight
import Wuchat.Foundation.CString

namespace Wuchat
namespace Http

open Foundation

/-- `uri_chars`: `1` for the characters `UrlEncode` copies. -/
def uri_chars : List Nat :=
  [0, 0, 0, 0, 0, 0, 0, 0,  0, 0, 0, 0, 0, 0, 0, 0,
   0, 0, 0, 0, 0, 0, 0, 0,  0, 0, 0, 0, 0, 0, 0, 0,
   0, 0, 0, 0, 0, 0, 0, 0,  0, 0, 0, 0, 0, 1, 1, 0,
   1, 1, 1, 1, 1, 1, 1, 1,  1, 1, 0, 0, 0, 1, 0, 0,
   0, 1, 1, 1, 1, 1, 1, 1,  1, 1, 1, 1, 1, 1, 1, 1,
   1, 1, 1, 1, 1, 1, 1, 1,  1, 1, 1, 0, 0, 0, 0, 1,
   0, 1, 1, 1, 1, 1, 1, 1,  1, 1, 1, 1, 1, 1, 1, 1,
   1, 1, 1, 1, 1, 1, 1, 1,  1, 1, 1, 0, 0, 0, 1, 0] ++ List.replicate 128 0

/-- `xdigit_chars`: the values of the hexadecimal digits. -/
def xdigit_chars : List UInt8 :=
  [0, 0, 0, 0, 0, 0, 0, 0, 0, 0, 0, 0, 0, 0, 0, 0,
   0, 0, 0, 0, 0, 0, 0, 0, 0, 0, 0, 0, 0, 0, 0, 0,
   0, 0, 0, 0, 0, 0, 0, 0, 0, 0, 0, 0, 0, 0, 0, 0,
   0, 1, 2, 3, 4, 5, 6, 7, 8, 9, 0, 0, 0, 0, 0, 0,
   0, 10, 11, 12, 13, 14, 15, 0, 0, 0, 0, 0, 0, 0, 0, 0,
   0, 0, 0, 0, 0, 0, 0, 0, 0, 0, 0, 0, 0, 0, 0, 0,
   0, 10, 11, 12, 13, 14, 15, 0, 0, 0, 0, 0, 0, 0, 0, 0,
   0, 0, 0, 0, 0, 0, 0, 0, 0, 0, 0, 0, 0, 0, 0, 0] ++ List.replicate 128 0

/-- `CHAR_IS_UNRESERVED(c)`. -/
def CHAR_IS_UNRESERVED (c : UInt8) : Bool := uri_chars.getD c.toNat 0 != 0

/-- `hexdigits`. -/
def hexdigits : Bytes := str "0123456789ABCDEF"

/-- What `UrlEncode` appends for a character that is not unreserved. -/
def encodeByte (space_as_plus : Bool) (c : UInt8) : Bytes :=
  if c = 32 ∧ space_as_plus then [43]
  else [37, hexdigits.getD (c >>> 4).toNat 0, hexdigits.getD (c &&& 0xf).toNat 0]

/-- The loop of `UrlEncode`: the characters behind it, those before it, and `*ss` once there
is one. -/
def urlEncodeLoop (space_as_plus : Bool) : Bytes → Bytes → Option Bytes → Option Bytes
  | _, [], ss => ss
  | before, c :: rest, ss =>
    if !CHAR_IS_UNRESERVED c then
      urlEncodeLoop space_as_plus (before ++ [c]) rest (some (ss.getD before ++ encodeByte space_as_plus c))
    else urlEncodeLoop space_as_plus (before ++ [c]) rest (ss.map (· ++ [c]))

/-- `StringUtil::UrlEncode(str, space_as_plus = true)`. -/
def UrlEncode (s : Bytes) (space_as_plus : Bool := true) : Bytes :=
  (urlEncodeLoop space_as_plus [] s none).getD s

/-- The byte two hexadecimal digits stand for. -/
def hexByte (a b : UInt8) : UInt8 := xdigit_chars.getD a.toNat 0 <<< 4 ||| xdigit_chars.getD b.toNat 0

/-- The loop of `UrlDecode`: the characters behind it, those before it, and `*ss` once there
is one. -/
def urlDecodeLoop (space_as_plus : Bool) : Bytes → Bytes → Option Bytes → Option Bytes
  | _, [], ss => ss
  | before, c :: rest, ss =>
    if c = 43 ∧ space_as_plus then
      urlDecodeLoop space_as_plus (before ++ [c]) rest (some (ss.getD before ++ [32]))
    else match rest with
      | a :: b :: rest' =>
        if c = 37 ∧ isxdigit a ∧ isxdigit b then
          urlDecodeLoop space_as_plus (before ++ [c, a, b]) rest' (some (ss.getD before ++ [hexByte a b]))
        else urlDecodeLoop space_as_plus (before ++ [c]) (a :: b :: rest') (ss.map (· ++ [c]))
      | rest => urlDecodeLoop space_as_plus (before ++ [c]) rest (ss.map (· ++ [c]))

/-- `StringUtil::UrlDecode(str, space_as_plus = true)`. -/
def UrlDecode (s : Bytes) (space_as_plus : Bool := true) : Bytes :=
  (urlDecodeLoop space_as_plus [] s none).getD s

/-- The characters `Trim` removes by default: `" \t\r\n"`. -/
def isDelimit (c : UInt8) : Bool := c = 32 || c = 9 || c = 13 || c = 10

/-- `str.find_first_not_of(delimit)`, as a position. -/
def find_first_not_of (s : Bytes) : Option Nat := s.findIdx? fun c => !isDelimit c

/-- `str.find_last_not_of(delimit)`, as a position. -/
def find_last_not_of (s : Bytes) : Option Nat :=
  (s.reverse.findIdx? fun c => !isDelimit c).map fun i => s.length - 1 - i

/-- `StringUtil::Trim(str, delimit = " \t\r\n")`. -/
def Trim (s : Bytes) : Bytes :=
  match find_first_not_of s with
  | none => []
  | some b => ((s.drop b).take ((find_last_not_of s).getD 0 - b + 1))

/-! ## The loops as functions of the characters -/

/-- What `UrlEncode` gives, character by character. -/
def encoded (space_as_plus : Bool) (s : Bytes) : Bytes :=
  s.flatMap fun c => if CHAR_IS_UNRESERVED c then [c] else encodeByte space_as_plus c

/-- Two hexadecimal digits stand at the start. -/
def hexAhead : Bytes → Bool
  | a :: b :: _ => isxdigit a && isxdigit b
  | _ => false

/-- What `UrlDecode` gives, character by character. -/
def decoded : Bytes → Bytes
  | [] => []
  | c :: rest =>
    if c = 43 then 32 :: decoded rest
    else if c = 37 ∧ hexAhead rest then hexByte (rest.getD 0 0) (rest.getD 1 0) :: decoded (rest.drop 2)
    else c :: decoded rest
  termination_by s => s.length
  decreasing_by all_goals simp; try omega

/-- One byte, then the others. -/
theorem encoded_cons (space_as_plus : Bool) (c : UInt8) (s : Bytes) :
    encoded space_as_plus (c :: s) =
      (if CHAR_IS_UNRESERVED c then [c] else encodeByte space_as_plus c) ++ encoded space_as_plus s :=
  List.flatMap_cons

/-- Two texts encoded one after the other. -/
theorem encoded_append (space_as_plus : Bool) (s t : Bytes) :
    encoded space_as_plus (s ++ t) = encoded space_as_plus s ++ encoded space_as_plus t :=
  List.flatMap_append

/-- One turn of the decoder. -/
theorem decoded_turn (c : UInt8) (rest : Bytes) :
    decoded (c :: rest) =
      if c = 43 then 32 :: decoded rest
      else if c = 37 ∧ hexAhead rest then hexByte (rest.getD 0 0) (rest.getD 1 0) :: decoded (rest.drop 2)
      else c :: decoded rest := by
  rw [decoded]

/-- Nothing is decoded to nothing. -/
@[simp] theorem decoded_nil : decoded [] = [] := by rw [decoded]

/-- A plus sign is a blank. -/
theorem decoded_plus (rest : Bytes) : decoded (43 :: rest) = 32 :: decoded rest := by
  rw [decoded_turn, if_pos rfl]

/-- A percent sign and two hex digits are a byte. -/
theorem decoded_hex {a b : UInt8} (ha : isxdigit a = true) (hb : isxdigit b = true) (rest : Bytes) :
    decoded (37 :: a :: b :: rest) = hexByte a b :: decoded rest := by
  have hx : hexAhead (a :: b :: rest) = true := by rw [hexAhead, ha, hb, Bool.and_self]
  rw [decoded_turn, if_neg (by decide), if_pos ⟨rfl, hx⟩]
  rfl

/-- Any other character is itself. -/
theorem decoded_cons {c : UInt8} {rest : Bytes} (h43 : c ≠ 43) (h37 : ¬ (c = 37 ∧ hexAhead rest = true)) :
    decoded (c :: rest) = c :: decoded rest := by
  rw [decoded_turn, if_neg h43, if_neg h37]

/-- A character that is neither `%` nor `+` stays. -/
theorem decoded_cons_plain {c : UInt8} (h43 : c ≠ 43) (h37 : c ≠ 37) (rest : Bytes) :
    decoded (c :: rest) = c :: decoded rest :=
  decoded_cons h43 fun h => h37 h.1

/-- A character appended to `*ss` when there is one. -/
theorem getD_map_append (ss : Option Bytes) (before : Bytes) (c : UInt8) :
    (ss.map (· ++ [c])).getD (before ++ [c]) = ss.getD before ++ [c] := by
  cases ss <;> rfl

/-- The loop's buffer, or the text where it has none. -/
theorem urlEncodeLoop_getD (space_as_plus : Bool) (before rest : Bytes) (ss : Option Bytes) :
    (urlEncodeLoop space_as_plus before rest ss).getD (before ++ rest) =
      ss.getD before ++ encoded space_as_plus rest := by
  induction rest generalizing before ss with
  | nil =>
    rw [urlEncodeLoop, List.append_nil]
    exact (List.append_nil _).symm
  | cons c rest ih =>
    rw [List.append_cons before c rest, encoded_cons, urlEncodeLoop]
    cases hc : CHAR_IS_UNRESERVED c with
    | false =>
      rw [if_pos (by decide), ih, Option.getD_some, if_neg Bool.false_ne_true, List.append_assoc]
    | true =>
      rw [if_neg (by decide), ih, if_pos rfl, getD_map_append, List.append_assoc]

/-- **The string built on the way is the encoding of every character.** -/
theorem UrlEncode_eq (s : Bytes) (space_as_plus : Bool) : UrlEncode s space_as_plus = encoded space_as_plus s :=
  urlEncodeLoop_getD space_as_plus [] s none

/-- One turn of the loop of `UrlDecode`. -/
theorem urlDecodeLoop_cons (space_as_plus : Bool) (before : Bytes) (c : UInt8) (rest : Bytes) (ss : Option Bytes) :
    urlDecodeLoop space_as_plus before (c :: rest) ss =
      if c = 43 ∧ space_as_plus = true then
        urlDecodeLoop space_as_plus (before ++ [c]) rest (some (ss.getD before ++ [32]))
      else if c = 37 ∧ hexAhead rest then
        urlDecodeLoop space_as_plus (before ++ c :: rest.take 2) (rest.drop 2)
          (some (ss.getD before ++ [hexByte (rest.getD 0 0) (rest.getD 1 0)]))
      else urlDecodeLoop space_as_plus (before ++ [c]) rest (ss.map (· ++ [c])) := by
  match rest with
  | [] | [_] => simp [urlDecodeLoop, hexAhead]
  | _ :: _ :: _ => simp [urlDecodeLoop, hexAhead]

/-- So it is for the decoder. -/
theorem urlDecodeLoop_getD (before rest : Bytes) (ss : Option Bytes) :
    (urlDecodeLoop true before rest ss).getD (before ++ rest) = ss.getD before ++ decoded rest := by
  match rest with
  | [] => rw [urlDecodeLoop, List.append_nil, decoded_nil, List.append_nil]
  | c :: rest =>
    rw [urlDecodeLoop_cons, decoded_turn]
    simp only [and_true]
    split
    · rw [List.append_cons before c rest, urlDecodeLoop_getD, Option.getD_some, List.append_assoc,
        List.singleton_append]
    · split
      · have hsplit : before ++ c :: rest = before ++ c :: rest.take 2 ++ rest.drop 2 := by simp
        rw [hsplit, urlDecodeLoop_getD, Option.getD_some, List.append_assoc, List.singleton_append]
      · rw [List.append_cons before c rest, urlDecodeLoop_getD, getD_map_append, List.append_assoc,
          List.singleton_append]
  termination_by rest.length
  decreasing_by all_goals simp; try omega

/-- **The string built on the way is the decoding of every character.** -/
theorem UrlDecode_eq (s : Bytes) : UrlDecode s = decoded s :=
  urlDecodeLoop_getD [] s none

/-! ## What decoding keeps -/

/-- A character `UrlDecode` neither changes nor reads as part of a `%` escape. -/
def Apart (c : UInt8) : Prop := c ≠ 43 ∧ c ≠ 37 ∧ isxdigit c = false

/-- **Decoding does not look across a separator.** -/
theorem decoded_append {c : UInt8} (hc : Apart c) : ∀ a b : Bytes,
    decoded (a ++ c :: b) = decoded a ++ c :: decoded b
  | [], b => by rw [List.nil_append, decoded_cons_plain hc.1 hc.2.1, decoded_nil, List.nil_append]
  | x :: a, b => by
    by_cases h43 : x = 43
    · rw [h43, List.cons_append, decoded_plus, decoded_append hc a b, decoded_plus, List.cons_append]
    · by_cases hx : x = 37 ∧ hexAhead a = true
      · obtain ⟨rfl, hx⟩ := hx
        match a, hx with
        | y :: z :: a, hx =>
          obtain ⟨hy, hz⟩ := Bool.and_eq_true_iff.mp hx
          simp only [List.cons_append]
          rw [decoded_hex hy hz, decoded_hex hy hz, decoded_append hc a b, List.cons_append]
      · -- the separator is no digit, so appending it makes no escape out of the `%`
        have hahead : hexAhead (a ++ c :: b) = true → hexAhead a = true := by
          match a with
          | [] => cases b <;> simp [hexAhead, hc.2.2]
          | [y] => simp [hexAhead, hc.2.2]
          | y :: z :: a => exact id
        rw [List.cons_append, decoded_cons h43 fun h => hx ⟨h.1, hahead h.2⟩, decoded_append hc a b,
          decoded_cons h43 hx, List.cons_append]
  termination_by a => a.length

/-- Characters that are neither `%` nor `+` in front stay in front. -/
theorem decoded_append_left {a : Bytes} (h : ∀ c ∈ a, c ≠ 43 ∧ c ≠ 37) (b : Bytes) :
    decoded (a ++ b) = a ++ decoded b := by
  induction a with
  | nil => rfl
  | cons c a ih =>
    obtain ⟨hc, ha⟩ := List.forall_mem_cons.mp h
    rw [List.cons_append, decoded_cons_plain hc.1 hc.2, ih ha, List.cons_append]

/-! ## Decoding undoes encoding -/

/-- A hexadecimal digit is read back as its value. -/
theorem hexdigits_spec : ∀ n < 16, isxdigit (hexdigits.getD n 0) = true ∧
    xdigit_chars.getD (hexdigits.getD n 0).toNat 0 = UInt8.ofNat n := by
  rw [show hexdigits = _ from str_ofList _]
  decide

/-- The escape of a byte reads back as that byte. -/
theorem escape_spec (c : UInt8) :
    isxdigit (hexdigits.getD (c >>> 4).toNat 0) = true ∧
      isxdigit (hexdigits.getD (c &&& 0xf).toNat 0) = true ∧
      hexByte (hexdigits.getD (c >>> 4).toNat 0) (hexdigits.getD (c &&& 0xf).toNat 0) = c := by
  obtain ⟨hhigh, hlow, hbyte⟩ := halves_spec c
  obtain ⟨hxhigh, hvhigh⟩ := hexdigits_spec _ hhigh
  obtain ⟨hxlow, hvlow⟩ := hexdigits_spec _ hlow
  refine ⟨hxhigh, hxlow, ?_⟩
  rw [hexByte, hvhigh, hvlow, UInt8.ofNat_toNat, UInt8.ofNat_toNat, hbyte]

/-- The unreserved characters are copied by `UrlDecode` and separate nothing; `=` is one of them. -/
theorem unreserved_spec (c : UInt8) (h : CHAR_IS_UNRESERVED c = true) : c ≠ 43 ∧ c ≠ 37 ∧ c ≠ 38 ∧ c ≠ 59 := by
  have hne : ∀ {d : UInt8}, CHAR_IS_UNRESERVED d = false → c ≠ d := fun hd heq =>
    Bool.false_ne_true (hd.symm.trans (heq ▸ h))
  exact ⟨hne rfl, hne rfl, hne rfl, hne rfl⟩

/-- **Decoding undoes encoding, whatever follows.** -/
theorem decoded_encoded (s t : Bytes) : decoded (encoded true s ++ t) = s ++ decoded t := by
  induction s with
  | nil => rfl
  | cons c s ih =>
    rw [encoded_cons, List.append_assoc, List.cons_append]
    cases hc : CHAR_IS_UNRESERVED c with
    | true =>
      obtain ⟨h43, h37, -⟩ := unreserved_spec c hc
      rw [if_pos rfl, List.singleton_append, decoded_cons_plain h43 h37, ih]
    | false =>
      rw [if_neg Bool.false_ne_true, encodeByte]
      split
      · rename_i h
        rw [List.singleton_append, decoded_plus, ih, h.1]
      · obtain ⟨hhi, hlo, hbyte⟩ := escape_spec c
        simp only [List.cons_append, List.nil_append]
        rw [decoded_hex hhi hlo, hbyte, ih]

/-- The loop of `UrlDecode` on an encoding, with the same value of `space_as_plus`. -/
theorem urlDecodeLoop_encoded (space_as_plus : Bool) (before s : Bytes) (ss : Option Bytes) :
    (urlDecodeLoop space_as_plus before (encoded space_as_plus s) ss).getD
      (before ++ encoded space_as_plus s) = ss.getD before ++ s := by
  induction s generalizing before ss with
  | nil =>
    rw [encoded, List.flatMap_nil, urlDecodeLoop, List.append_nil, List.append_nil]
  | cons c s ih =>
    rw [encoded_cons]
    cases hc : CHAR_IS_UNRESERVED c with
    | true =>
      obtain ⟨h43, h37, -⟩ := unreserved_spec c hc
      rw [if_pos rfl, List.singleton_append, urlDecodeLoop_cons, if_neg fun h => h43 h.1, if_neg fun h => h37 h.1,
        List.append_cons before c (encoded space_as_plus s), ih, getD_map_append, List.append_assoc,
        List.singleton_append]
    | false =>
      rw [if_neg Bool.false_ne_true, encodeByte]
      split
      · rename_i h
        rw [List.singleton_append, urlDecodeLoop_cons, if_pos ⟨rfl, h.2⟩,
          List.append_cons before 43 (encoded space_as_plus s), ih, Option.getD_some, h.1, List.append_assoc,
          List.singleton_append]
      · obtain ⟨hhi, hlo, hbyte⟩ := escape_spec c
        generalize hexdigits.getD (c >>> 4).toNat 0 = a at hhi hbyte
        generalize hexdigits.getD (c &&& 0xf).toNat 0 = b at hlo hbyte
        generalize hrest : encoded space_as_plus s = rest at ih
        have hahead : hexAhead (a :: b :: rest) = true := by rw [hexAhead, hhi, hlo, Bool.and_self]
        have hsplit : before ++ ([37, a, b] ++ rest) = before ++ [37, a, b] ++ rest :=
          (List.append_assoc ..).symm
        rw [hsplit]
        show (urlDecodeLoop space_as_plus before (37 :: a :: b :: rest) ss).getD _ = _
        rw [urlDecodeLoop_cons, if_neg fun h => absurd h.1 (by decide), if_pos ⟨rfl, hahead⟩]
        show (urlDecodeLoop space_as_plus (before ++ [37, a, b]) rest
            (some (ss.getD before ++ [hexByte a b]))).getD _ = _
        rw [ih, Option.getD_some, hbyte, List.append_assoc, List.singleton_append]

/-- **`UrlDecode` undoes `UrlEncode`**, with a space as `+` and without. -/
theorem UrlDecode_UrlEncode (s : Bytes) (space_as_plus : Bool) :
    UrlDecode (UrlEncode s space_as_plus) space_as_plus = s := by
  rw [UrlEncode_eq]
  exact urlDecodeLoop_encoded space_as_plus [] s none

/-- The escapes stand for no separator of parameters. -/
theorem encodeByte_spec (c : UInt8) : ∀ x ∈ encodeByte true c, x ≠ 38 ∧ x ≠ 61 := by
  intro x hx
  have hdigit : ∀ {d : UInt8}, isxdigit d = true → d ≠ 38 ∧ d ≠ 61 := fun hd =>
    ⟨fun h => absurd (h ▸ hd) (by decide), fun h => absurd (h ▸ hd) (by decide)⟩
  obtain ⟨hhigh, hlow, -⟩ := escape_spec c
  rw [encodeByte] at hx
  split at hx
  · rw [List.mem_singleton.mp hx]
    decide
  · simp only [List.mem_cons, List.not_mem_nil, or_false] at hx
    rcases hx with rfl | rfl | rfl
    · decide
    · exact hdigit hhigh
    · exact hdigit hlow

/-- **The encoding of a text contains no `&`**, and `=` only where the text does. -/
theorem mem_encoded {x : UInt8} {s : Bytes} (h : x ∈ encoded true s) : x ≠ 38 ∧ (x = 61 → 61 ∈ s) := by
  induction s with
  | nil => cases h
  | cons c s ih =>
    rw [encoded_cons, List.mem_append] at h
    rcases h with h | h
    · cases hc : CHAR_IS_UNRESERVED c with
      | true =>
        rw [hc, if_pos rfl, List.mem_singleton] at h
        obtain ⟨-, -, h38, -⟩ := unreserved_spec c hc
        exact ⟨h ▸ h38, fun h61 => h61 ▸ h ▸ List.mem_cons_self⟩
      | false =>
        rw [hc, if_neg Bool.false_ne_true] at h
        exact ⟨(encodeByte_spec c x h).1, fun h61 => absurd h61 (encodeByte_spec c x h).2⟩
    · exact ⟨(ih h).1, fun h61 => List.mem_cons_of_mem _ ((ih h).2 h61)⟩

/-- `=` is copied. -/
theorem encoded_equals (space_as_plus : Bool) (s : Bytes) :
    encoded space_as_plus (61 :: s) = 61 :: encoded space_as_plus s := rfl

/-! ## Trimming -/

/-- The last character `Trim` keeps, counted from the end of the text without its trailing
delimiters. -/
theorem find_last_not_of_append {t z : Bytes} {d : UInt8} (hd : isDelimit d = false)
    (hz : ∀ c ∈ z, isDelimit c = true) : find_last_not_of (t ++ [d] ++ z) = some t.length := by
  have hfind : (t ++ [d] ++ z).reverse.findIdx? (fun c => !isDelimit c) = some z.length := by
    rw [List.reverse_append, List.findIdx?_append, List.findIdx?_eq_none_iff.mpr, List.reverse_append]
    · simp [List.findIdx?_cons, hd]
    · exact fun c hc => by rw [hz c (List.mem_reverse.mp hc)]; rfl
  rw [find_last_not_of, hfind, Option.map_some, List.length_append, List.length_append, List.length_singleton]
  congr 1
  omega

/-- **`Trim` drops the delimiters at the end, then those at the start.** -/
theorem Trim_eq (s : Bytes) : Trim s = (s.rdropWhile isDelimit).dropWhile isDelimit := by
  by_cases h : s.rdropWhile isDelimit = []
  · have hall := List.rdropWhile_eq_nil_iff.mp h
    have hnone : s.findIdx? (fun c => !isDelimit c) = none :=
      List.findIdx?_eq_none_iff.mpr fun c hc => by rw [hall c hc]; rfl
    rw [Trim, find_first_not_of, hnone, h]
    rfl
  · obtain ⟨t, d, ht⟩ := (List.eq_nil_or_concat' (s.rdropWhile isDelimit)).resolve_left h
    have hd : isDelimit d = false := by
      have := List.rdropWhile_last_not isDelimit s h
      simpa [ht] using this
    have hs : s = t ++ [d] ++ s.rtakeWhile isDelimit := by
      rw [← ht, List.rdropWhile_append_rtakeWhile]
    have hz : ∀ c ∈ s.rtakeWhile isDelimit, isDelimit c = true := fun c => List.mem_rtakeWhile_imp
    generalize s.rtakeWhile isDelimit = z at hs hz
    have hfirst : (t ++ [d]).findIdx? (fun c => !isDelimit c) = some ((t ++ [d]).findIdx fun c => !isDelimit c) :=
      List.findIdx?_eq_some_of_exists ⟨d, by simp, by rw [hd]; rfl⟩
    have hlt := (List.findIdx?_eq_some_iff_findIdx_eq.mp hfirst).1
    rw [ht, List.dropWhile_eq_drop_findIdx_not, Trim, hs, find_last_not_of_append hd hz, find_first_not_of,
      List.findIdx?_append, hfirst]
    generalize (t ++ [d]).findIdx (fun c => !isDelimit c) = b at hlt
    rw [List.length_append, List.length_singleton] at hlt
    simp only [Option.some_or, Option.getD_some]
    rw [List.drop_append_of_le_length (by simp; omega), List.take_left' (by simp; omega)]

/-- Dropping from the front of a text with a separator stops at the separator. -/
theorem dropWhile_append_cons {c : UInt8} (hc : isDelimit c = false) (a b : Bytes) :
    (a ++ c :: b).dropWhile isDelimit = a.dropWhile isDelimit ++ c :: b := by
  induction a with
  | nil => rw [List.nil_append, List.dropWhile_cons_of_neg (by simp [hc])]; rfl
  | cons x a ih =>
    rw [List.cons_append, List.dropWhile_cons, List.dropWhile_cons, ih]
    split <;> rfl

/-- A text with a separator in it is trimmed on either side of the separator. -/
theorem Trim_append {c : UInt8} (hc : isDelimit c = false) (a b : Bytes) :
    Trim (a ++ c :: b) = a.dropWhile isDelimit ++ c :: b.rdropWhile isDelimit := by
  have hright : (a ++ c :: b).rdropWhile isDelimit = a ++ c :: b.rdropWhile isDelimit := by
    rw [List.rdropWhile, List.reverse_append, List.reverse_cons, List.append_assoc, List.singleton_append,
      dropWhile_append_cons hc, List.reverse_append, List.reverse_cons, List.reverse_reverse, List.append_assoc,
      List.singleton_append, List.rdropWhile]
  rw [Trim_eq, hright, dropWhile_append_cons hc]

/-- Decoding keeps the delimiters of `Trim`. -/
theorem not_escape_of_isDelimit (c : UInt8) : isDelimit c = true → c ≠ 43 ∧ c ≠ 37 := by
  intro h
  have hc : c = 32 ∨ c = 9 ∨ c = 13 ∨ c = 10 := by simpa [isDelimit, or_assoc] using h
  rcases hc with rfl | rfl | rfl | rfl <;> decide

/-- A trimmed text decodes to no more characters than one trimmed at its end only. -/
theorem length_decoded_Trim_le (s : Bytes) :
    (decoded (Trim s)).length ≤ (decoded (s.rdropWhile isDelimit)).length := by
  rw [Trim_eq]
  generalize s.rdropWhile isDelimit = t
  have hws : ∀ c ∈ t.takeWhile isDelimit, c ≠ 43 ∧ c ≠ 37 := fun c hc =>
    not_escape_of_isDelimit c (List.mem_takeWhile_imp hc)
  conv_rhs => rw [← List.takeWhile_append_dropWhile (p := isDelimit) (l := t)]
  rw [decoded_append_left hws, List.length_append]
  exact Nat.le_add_left ..

example : UrlEncode (str "a b=%") = str "a+b=%25" ∧ UrlDecode (str "a+b%2Fc%2") = str "a b/c%2" ∧
    Trim (str " a b\t") = str "a b" := by
  decide +kernel

end Http
end Wuchat
