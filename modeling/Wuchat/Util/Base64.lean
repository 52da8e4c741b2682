/-
# Base64

`util/hash_util.cpp`: `base64encode` and `base64decode`.

The encoder takes three bytes in a turn and pads what the last group is short of.  The
decoder takes four characters in a turn, writes up to three bytes into a buffer of three
quarters of its argument, and returns the empty string at anything that is not base64; a
write outside the buffer has no result here.

`decodeLoop_eq` reads the decoder as a function of the groups (`decodeGroups`), which
gives back what was encoded (`base64decode_base64encode`) and accepts the grammar
(`base64decode_spec`).  `packed` never has more than 24 bits, so it is a number.
-/

import Mathlib.Algebra.Group.Nat.Defs
import Wuchat.Foundation.CString

namespace Wuchat
namespace Util

open Foundation

/-- The characters of the alphabet, `base64` of `base64encode`. -/
def base64 : Bytes := str "ABCDEFGHIJKLMNOPQRSTUVWXYZabcdefghijklmnopqrstuvwxyz0123456789+/"

/-- A turn of the loop of `base64encode`, on three bytes or on the last ones. -/
def encodeGroup (bytes : Bytes) : Bytes :=
  let i := bytes.length
  let packed := bytes.foldl (fun packed b => packed <<< 8 ||| b.toNat) 0
  let padding := if i = 2 then 1 else if i = 1 then 2 else 0
  let packed := packed <<< (8 * (3 - i))
  [base64.getD (packed >>> 18) 0, base64.getD (packed >>> 12 &&& 0x3f) 0] ++
    (if padding ≠ 2 then [base64.getD (packed >>> 6 &&& 0x3f) 0] else []) ++
    (if padding = 0 then [base64.getD (packed &&& 0x3f) 0] else []) ++
    List.replicate padding 61

/-- `base64encode(data)`. -/
def base64encode : Bytes → Bytes
  | [] => []
  | a :: b :: c :: rest => encodeGroup [a, b, c] ++ base64encode rest
  | [a] => encodeGroup [a]
  | [a, b] => encodeGroup [a, b]

/-- `val`, the value of a character of the alphabet. -/
def decodeValue (c : UInt8) : Option Nat :=
  if 65 ≤ c ∧ c ≤ 90 then some (c.toNat - 65)
  else if 97 ≤ c ∧ c ≤ 122 then some (c.toNat - 97 + 26)
  else if 48 ≤ c ∧ c ≤ 57 then some (c.toNat - 48 + 52)
  else if c = 43 then some 62
  else if c = 47 then some 63
  else none

/-- The inner loop of `base64decode`: `padding` and `packed` after the characters; none where it
returns the empty string. -/
def decodeChars : Bytes → Nat → Nat → Option (Nat × Nat)
  | [], padding, packed => some (padding, packed)
  | c :: rest, padding, packed =>
    if c = 61 then decodeChars rest (padding + 1) (packed <<< 6)
    else if 0 < padding then none
    else match decodeValue c with
      | none => none
      | some val => decodeChars rest padding (packed <<< 6 ||| val)

/-- `*writeBuf++ = (char)((packed >> shift) & 0xff)`; none outside the buffer. -/
def writeByte (packed shift : Nat) (result : Bytes) (writeBuf : Nat) : Option (Bytes × Nat) :=
  if writeBuf < result.length then
    some (result.set writeBuf (UInt8.ofNat (packed >>> shift &&& 0xff)), writeBuf + 1)
  else none

/-- The writes of a turn. -/
def writeGroup (padding packed : Nat) (result : Bytes) (writeBuf : Nat) : Option (Bytes × Nat) := do
  let (result, writeBuf) ← writeByte packed 16 result writeBuf
  let (result, writeBuf) ← if padding ≠ 2 then writeByte packed 8 result writeBuf else some (result, writeBuf)
  if padding = 0 then writeByte packed 0 result writeBuf else some (result, writeBuf)

/-- The loop of `base64decode`, with the buffer and the index of `writeBuf` in it. -/
def decodeLoop : Bytes → Bytes → Nat → Option Bytes
  | [], result, writeBuf => some (result.take writeBuf)
  | c₀ :: c₁ :: c₂ :: c₃ :: rest, result, writeBuf =>
    match decodeChars [c₀, c₁, c₂, c₃] 0 0 with
    | none => some []
    | some (padding, packed) =>
      if 0 < padding ∧ rest ≠ [] then some []
      else if 2 < padding then some []
      else match writeGroup padding packed result writeBuf with
        | none => none
        | some (result, writeBuf) => decodeLoop rest result writeBuf
  -- fewer than four characters: bad ones, or `i != 4`
  | _ :: _, _, _ => some []

/-- `base64decode(src)`. -/
def base64decode (src : Bytes) : Option Bytes :=
  decodeLoop src (List.replicate (src.length * 3 / 4) 0) 0

/-! ### Six bits at a time -/

/-- Bits put behind others. -/
theorem shift_or {b n : Nat} (p : Nat) (h : b < 2 ^ n) : p <<< n ||| b = p * 2 ^ n + b := by
  rw [← Nat.shiftLeft_add_eq_or_of_lt h, Nat.shiftLeft_eq]

/-- A mask is a remainder. -/
theorem and_mask (p n : Nat) : p &&& (2 ^ n - 1) = p % 2 ^ n := Nat.and_two_pow_sub_one_eq_mod p n

/-- The alphabet's letters stand for their places. -/
theorem map_decodeValue : base64.map decodeValue = (List.range 64).map some := by decide

/-- A character of the alphabet has its place there as its value. -/
theorem decodeValue_base64 {n : Nat} (hn : n < 64) : decodeValue (base64.getD n 0) = some n := by
  have hat := congrArg (·[n]?) map_decodeValue
  simp only [List.getElem?_map, List.getElem?_range hn, Option.map_some] at hat
  obtain ⟨c, hc, hvalue⟩ := Option.map_eq_some_iff.mp hat
  rw [List.getD_eq_getElem?_getD, hc, Option.getD_some, hvalue]

/-- A letter stands for less than 64 and is no padding. -/
theorem decodeValue_spec (c : UInt8) : ∀ val ∈ decodeValue c, val < 64 ∧ c ≠ 61 := by
  revert c
  exact forall_byte (by decide +kernel)

/-- **A character of the alphabet**, of which `decodeValue` knows the value. -/
def isAlphabet (c : UInt8) : Bool :=
  (65 ≤ c && c ≤ 90) || (97 ≤ c && c ≤ 122) || (48 ≤ c && c ≤ 57) || c = 43 || c = 47

/-- Only the alphabet's letters stand for anything. -/
theorem isSome_decodeValue (c : UInt8) : (decodeValue c).isSome = isAlphabet c := by
  revert c
  exact forall_byte (by decide +kernel)

/-- Padding counts and adds zero bits. -/
theorem decodeChars_pads (k padding packed : Nat) :
    decodeChars (List.replicate k 61) padding packed = some (padding + k, packed * 64 ^ k) := by
  induction k generalizing padding packed with
  | zero => simp [decodeChars]
  | succ k ih =>
    have hpow : 64 ^ (k + 1) = 2 ^ 6 * 64 ^ k := Nat.pow_succ'
    rw [List.replicate_succ, decodeChars, if_pos rfl, ih, Nat.shiftLeft_eq, Nat.mul_assoc, hpow, Nat.add_assoc,
      Nat.add_comm 1]

/-- A letter adds its six bits. -/
theorem decodeChars_digit {c : UInt8} {val : Nat} (h : decodeValue c = some val) (rest : Bytes) (packed : Nat) :
    decodeChars (c :: rest) 0 packed = decodeChars rest 0 (packed * 64 + val) := by
  obtain ⟨hlt, hpad⟩ := decodeValue_spec c val h
  have hor : packed <<< 6 ||| val = packed * 64 + val := shift_or packed (show val < 2 ^ 6 from hlt)
  rw [decodeChars, if_neg hpad, if_neg (Nat.lt_irrefl 0), h]
  dsimp only
  rw [hor]

/-! ### The groups of the decoder -/

/-- The bytes a group is decoded to. -/
def groupBytes (padding packed : Nat) : Bytes :=
  [UInt8.ofNat (packed >>> 16 &&& 0xff)] ++
    (if padding ≠ 2 then [UInt8.ofNat (packed >>> 8 &&& 0xff)] else []) ++
    (if padding = 0 then [UInt8.ofNat (packed >>> 0 &&& 0xff)] else [])

/-- A group has three bytes less its padding. -/
theorem length_groupBytes {padding : Nat} (h : padding ≤ 2) (packed : Nat) :
    (groupBytes padding packed).length + padding = 3 := by
  rcases (by omega : padding = 0 ∨ padding = 1 ∨ padding = 2) with rfl | rfl | rfl <;> rfl

/-- What `base64decode` makes of its argument; none where it returns the empty string early. -/
def decodeGroups : Bytes → Option Bytes
  | [] => some []
  | c₀ :: c₁ :: c₂ :: c₃ :: rest => do
    let (padding, packed) ← decodeChars [c₀, c₁, c₂, c₃] 0 0
    if (0 < padding ∧ rest ≠ []) ∨ 2 < padding then none
    else return groupBytes padding packed ++ (← decodeGroups rest)
  | _ :: _ => none

/-- A byte is written at its place. -/
theorem writeByte_at (packed shift : Nat) (pre : Bytes) {free : Bytes} (h : free ≠ []) :
    ∃ free', free'.length + 1 = free.length ∧
      writeByte packed shift (pre ++ free) pre.length =
        some (pre ++ [UInt8.ofNat (packed >>> shift &&& 0xff)] ++ free',
          (pre ++ [UInt8.ofNat (packed >>> shift &&& 0xff)]).length) := by
  cases free with
  | nil => exact (h rfl).elim
  | cons x free =>
    refine ⟨free, rfl, ?_⟩
    rw [writeByte, if_pos (by simp)]
    simp

/-- The writes of a turn are the bytes its group is decoded to. -/
theorem writeGroup_at {padding : Nat} (packed : Nat) (pre : Bytes) {free : Bytes} (h : 3 ≤ free.length + padding)
    (h2 : padding ≤ 2) :
    ∃ free', free'.length + 3 = free.length + padding ∧
      writeGroup padding packed (pre ++ free) pre.length =
        some (pre ++ groupBytes padding packed ++ free', (pre ++ groupBytes padding packed).length) := by
  have hne : free ≠ [] := List.ne_nil_of_length_pos (by omega)
  obtain ⟨free₁, hlen₁, hw₁⟩ := writeByte_at packed 16 pre hne
  by_cases htwo : padding = 2
  · refine ⟨free₁, by omega, ?_⟩
    subst htwo
    rw [writeGroup, hw₁]
    simp [groupBytes]
  · have hne₁ : free₁ ≠ [] := List.ne_nil_of_length_pos (by omega)
    obtain ⟨free₂, hlen₂, hw₂⟩ :=
      writeByte_at packed 8 (pre ++ [UInt8.ofNat (packed >>> 16 &&& 0xff)]) hne₁
    by_cases hzero : padding = 0
    · have hne₂ : free₂ ≠ [] := List.ne_nil_of_length_pos (by omega)
      obtain ⟨free₃, hlen₃, hw₃⟩ := writeByte_at packed 0
        (pre ++ [UInt8.ofNat (packed >>> 16 &&& 0xff)] ++ [UInt8.ofNat (packed >>> 8 &&& 0xff)]) hne₂
      refine ⟨free₃, by omega, ?_⟩
      subst hzero
      simp only [writeGroup, hw₁, hw₂, hw₃, Option.bind_eq_bind, Option.bind_some, if_true, ne_eq, htwo,
        not_false_eq_true]
      simp [groupBytes]
    · refine ⟨free₂, by omega, ?_⟩
      simp only [writeGroup, hw₁, hw₂, Option.bind_eq_bind, Option.bind_some, if_true, ne_eq, htwo, hzero, if_false,
        not_false_eq_true]
      simp [groupBytes, htwo, hzero]

/-- **The writes stay in the buffer**, and the result is what the groups are decoded to. -/
theorem decodeLoop_eq (src pre free : Bytes) (h : 3 * (src.length / 4) ≤ free.length) :
    decodeLoop src (pre ++ free) pre.length = some (((decodeGroups src).map (pre ++ ·)).getD []) := by
  match src with
  | [] => simp [decodeLoop, decodeGroups]
  | [_] | [_, _] | [_, _, _] => rfl
  | c₀ :: c₁ :: c₂ :: c₃ :: rest =>
    have hrest : 3 * (rest.length / 4) + 3 ≤ free.length := by
      simp only [List.length_cons] at h
      omega
    rw [decodeLoop, decodeGroups]
    cases hchars : decodeChars [c₀, c₁, c₂, c₃] 0 0 with
    | none => rfl
    | some found =>
      obtain ⟨padding, packed⟩ := found
      dsimp only [Option.bind_eq_bind, Option.bind_some]
      by_cases htrail : 0 < padding ∧ rest ≠ []
      · rw [if_pos htrail, if_pos (.inl htrail)]
        rfl
      · rw [if_neg htrail]
        by_cases hmore : 2 < padding
        · rw [if_pos hmore, if_pos (.inr hmore)]
          rfl
        · rw [if_neg hmore, if_neg (not_or.mpr ⟨htrail, hmore⟩)]
          have hroom : 3 ≤ free.length + padding := by omega
          obtain ⟨free', hlen, hwrite⟩ := writeGroup_at packed pre hroom (Nat.le_of_not_lt hmore)
          rw [hwrite]
          dsimp only
          rw [decodeLoop_eq rest (pre ++ groupBytes padding packed) free' ?_]
          · cases decodeGroups rest <;> simp
          · omega

/-- The decoder decodes group by group, or gives up. -/
theorem base64decode_eq (src : Bytes) : base64decode src = some ((decodeGroups src).getD []) := by
  have h := decodeLoop_eq src [] (List.replicate (src.length * 3 / 4) 0) (by rw [List.length_replicate]; omega)
  rw [List.nil_append, List.length_nil] at h
  rw [base64decode, h]
  simp

/-! ### What is read back -/

/-- One group, then the others. -/
theorem decodeGroups_cons {c₀ c₁ c₂ c₃ : UInt8} {rest : Bytes} {padding packed : Nat}
    (hchars : decodeChars [c₀, c₁, c₂, c₃] 0 0 = some (padding, packed)) :
    decodeGroups (c₀ :: c₁ :: c₂ :: c₃ :: rest) =
      if (0 < padding ∧ rest ≠ []) ∨ 2 < padding then none
      else (decodeGroups rest).map (groupBytes padding packed ++ ·) := by
  rw [decodeGroups, hchars]
  dsimp only [Option.bind_eq_bind, Option.bind_some]
  split
  · rfl
  · cases decodeGroups rest <;> rfl

/-- The characters of a group, of `p` with 24 bits. -/
def digits (p : Nat) : Bytes :=
  [base64.getD (p >>> 18) 0, base64.getD (p >>> 12 &&& 0x3f) 0, base64.getD (p >>> 6 &&& 0x3f) 0,
    base64.getD (p &&& 0x3f) 0]

/-- The letters of a group, and its padding. -/
theorem encodeGroup_eq (a b c : UInt8) :
    encodeGroup [a, b, c] = digits (a.toNat * 65536 + b.toNat * 256 + c.toNat) ∧
      encodeGroup [a, b] = (digits (a.toNat * 65536 + b.toNat * 256)).take 3 ++ [61] ∧
      encodeGroup [a] = (digits (a.toNat * 65536)).take 2 ++ [61, 61] := by
  have h : ∀ x : UInt8, x.toNat < 2 ^ 8 := fun x => x.toNat_lt
  have hthree : ((0 <<< 8 ||| a.toNat) <<< 8 ||| b.toNat) <<< 8 ||| c.toNat =
      a.toNat * 65536 + b.toNat * 256 + c.toNat := by
    simp only [shift_or _ (h _)]
    omega
  have htwo : ((0 <<< 8 ||| a.toNat) <<< 8 ||| b.toNat) <<< 8 = a.toNat * 65536 + b.toNat * 256 := by
    rw [Nat.shiftLeft_eq]
    simp only [shift_or _ (h _)]
    omega
  have hone : (0 <<< 8 ||| a.toNat) <<< 16 = a.toNat * 65536 := by
    rw [Nat.shiftLeft_eq]
    simp only [shift_or _ (h _)]
    omega
  rw [← hthree, ← htwo, ← hone]
  unfold encodeGroup digits
  generalize base64 = alphabet
  exact ⟨rfl, rfl, rfl⟩

/-- The digits give their number back, and `=` for the last ones gives what the others say. -/
theorem decodeChars_digits {p : Nat} (hp : p < 2 ^ 24) :
    decodeChars (digits p) 0 0 = some (0, p) ∧
      decodeChars ((digits p).take 3 ++ [61]) 0 0 = some (1, p / 2 ^ 6 * 2 ^ 6) ∧
      decodeChars ((digits p).take 2 ++ [61, 61]) 0 0 = some (2, p / 2 ^ 12 * 2 ^ 12) := by
  have hmask : ∀ n, n &&& 0x3f = n % 64 := fun n => and_mask n 6
  simp only [digits, hmask, Nat.shiftRight_eq_div_pow, List.take_succ_cons, List.take_zero, List.cons_append,
    List.nil_append]
  have h₀ := decodeValue_base64 (show p / 2 ^ 18 < 64 by omega)
  have h₁ := decodeValue_base64 (show p / 2 ^ 12 % 64 < 64 by omega)
  have h₂ := decodeValue_base64 (show p / 2 ^ 6 % 64 < 64 by omega)
  have h₃ := decodeValue_base64 (show p % 64 < 64 by omega)
  refine ⟨?_, ?_, ?_⟩
  · rw [decodeChars_digit h₀, decodeChars_digit h₁, decodeChars_digit h₂, decodeChars_digit h₃, decodeChars]
    exact congrArg (fun packed => some (0, packed)) (by omega)
  · rw [decodeChars_digit h₀, decodeChars_digit h₁, decodeChars_digit h₂]
    rw [show [(61 : UInt8)] = List.replicate 1 61 from rfl, decodeChars_pads]
    exact congrArg (fun packed => some (1, packed)) (by omega)
  · rw [decodeChars_digit h₀, decodeChars_digit h₁]
    rw [show [(61 : UInt8), 61] = List.replicate 2 61 from rfl, decodeChars_pads]
    exact congrArg (fun packed => some (2, packed)) (by omega)

/-- The bytes of a number of 24 bits. -/
theorem groupBytes_packed (a b c : UInt8) :
    groupBytes 0 (a.toNat * 65536 + b.toNat * 256 + c.toNat) = [a, b, c] ∧
      groupBytes 1 (a.toNat * 65536 + b.toNat * 256) = [a, b] ∧ groupBytes 2 (a.toNat * 65536) = [a] := by
  have hmask : ∀ n, n &&& 0xff = n % 256 := fun n => and_mask n 8
  have ha := a.toNat_lt
  have hb := b.toNat_lt
  have hc := c.toNat_lt
  have hof : ∀ (x : UInt8) (n : Nat), n = x.toNat → UInt8.ofNat n = x := by
    rintro x _ rfl
    exact UInt8.ofNat_toNat
  simp only [groupBytes, hmask, Nat.shiftRight_eq_div_pow]
  refine ⟨?_, ?_, ?_⟩
  · rw [hof a _ (by omega), hof b _ (by omega), hof c _ (by omega)]
    rfl
  · rw [hof a _ (by omega), hof b _ (by omega)]
    rfl
  · rw [hof a _ (by omega)]
    rfl

/-- A group of the encoder is read back as its bytes. -/
theorem decodeGroups_encodeGroup (a b c : UInt8) (rest : Bytes) :
    decodeGroups (encodeGroup [a, b, c] ++ rest) = (decodeGroups rest).map ([a, b, c] ++ ·) ∧
      decodeGroups (encodeGroup [a, b]) = some [a, b] ∧ decodeGroups (encodeGroup [a]) = some [a] := by
  have ha := a.toNat_lt
  have hb := b.toNat_lt
  have hc := c.toNat_lt
  obtain ⟨henc₀, henc₁, henc₂⟩ := encodeGroup_eq a b c
  obtain ⟨hbytes₀, hbytes₁, hbytes₂⟩ := groupBytes_packed a b c
  have hfour : ∀ p, ∃ d₀ d₁ d₂ d₃, digits p = [d₀, d₁, d₂, d₃] := fun p => ⟨_, _, _, _, rfl⟩
  refine ⟨?_, ?_, ?_⟩
  · have hchars := (decodeChars_digits (p := a.toNat * 65536 + b.toNat * 256 + c.toNat) (by omega)).1
    obtain ⟨d₀, d₁, d₂, d₃, hdigits⟩ := hfour (a.toNat * 65536 + b.toNat * 256 + c.toNat)
    rw [henc₀, ← hbytes₀, hdigits]
    rw [hdigits] at hchars
    exact (decodeGroups_cons hchars).trans (if_neg (by simp))
  · have hchars := (decodeChars_digits (p := a.toNat * 65536 + b.toNat * 256) (by omega)).2.1
    rw [show (a.toNat * 65536 + b.toNat * 256) / 2 ^ 6 * 2 ^ 6 = a.toNat * 65536 + b.toNat * 256 by omega] at hchars
    obtain ⟨d₀, d₁, d₂, d₃, hdigits⟩ := hfour (a.toNat * 65536 + b.toNat * 256)
    rw [henc₁, ← hbytes₁, hdigits]
    rw [hdigits] at hchars
    refine (decodeGroups_cons hchars).trans ?_
    rw [if_neg (by simp), decodeGroups, Option.map_some, List.append_nil]
  · have hchars := (decodeChars_digits (p := a.toNat * 65536) (by omega)).2.2
    rw [show a.toNat * 65536 / 2 ^ 12 * 2 ^ 12 = a.toNat * 65536 by omega] at hchars
    obtain ⟨d₀, d₁, d₂, d₃, hdigits⟩ := hfour (a.toNat * 65536)
    rw [henc₂, ← hbytes₂, hdigits]
    rw [hdigits] at hchars
    refine (decodeGroups_cons hchars).trans ?_
    rw [if_neg (by simp), decodeGroups, Option.map_some, List.append_nil]

/-- What is encoded is decoded. -/
theorem decodeGroups_base64encode (data : Bytes) : decodeGroups (base64encode data) = some data := by
  fun_induction base64encode data with
  | case1 => rfl
  | case2 a b c rest ih =>
    rw [(decodeGroups_encodeGroup a b c _).1, ih]
    rfl
  | case3 a => exact (decodeGroups_encodeGroup a 0 0 []).2.2
  | case4 a b => exact (decodeGroups_encodeGroup a b 0 []).2.1

/-- The encoded text has four letters for three bytes. -/
theorem length_base64encode (data : Bytes) : (base64encode data).length = 4 * ((data.length + 2) / 3) := by
  fun_induction base64encode data with
  | case1 => rfl
  | case2 a b c rest ih =>
    rw [List.length_append, ih, (encodeGroup_eq a b c).1]
    simp only [digits, List.length_cons, List.length_nil]
    omega
  | case3 a =>
    rw [(encodeGroup_eq a 0 0).2.2]
    simp [digits]
  | case4 a b =>
    rw [(encodeGroup_eq a b 0).2.1]
    simp [digits]

/-- **Decoding undoes encoding**, and the encoding has four characters for every three bytes or what is left of
three. -/
theorem base64decode_base64encode (data : Bytes) :
    base64decode (base64encode data) = some data ∧ (base64encode data).length = 4 * ((data.length + 2) / 3) := by
  refine ⟨?_, length_base64encode data⟩
  rw [base64decode_eq, decodeGroups_base64encode]
  rfl

/-! ### What is accepted -/

/-- Characters of the alphabet, and then `padding` times `=`. -/
def padded (padding : Nat) (t : Bytes) : Prop :=
  ∃ chars, (∀ c ∈ chars, isAlphabet c = true) ∧ t = chars ++ List.replicate padding 61

/-- The characters of a group are `padded`, as the loop counts it. -/
theorem decodeChars_spec {t : Bytes} {padding packed : Nat} {found : Nat × Nat}
    (h : decodeChars t padding packed = some found) :
    padding ≤ found.1 ∧ padded (found.1 - padding) t ∧ (0 < padding → t = List.replicate (found.1 - padding) 61) := by
  induction t generalizing padding packed with
  | nil =>
    cases h
    exact ⟨Nat.le_refl _, ⟨[], by simp, by simp⟩, by simp⟩
  | cons c rest ih =>
    rw [decodeChars] at h
    split at h
    · rename_i hc
      obtain ⟨hle, -, hall⟩ := ih h
      have hrest : c :: rest = List.replicate (found.1 - padding) 61 := by
        rw [hc, hall (Nat.succ_pos _), ← List.replicate_succ]
        congr 1
        omega
      exact ⟨by omega, ⟨[], by simp, hrest⟩, fun _ => hrest⟩
    · split at h
      · cases h
      · rename_i hpad
        cases hvalue : decodeValue c with
        | none =>
          rw [hvalue] at h
          cases h
        | some val =>
          rw [hvalue] at h
          obtain ⟨hle, ⟨chars, hchars, hrest⟩, -⟩ := ih h
          have hc : isAlphabet c = true := by rw [← isSome_decodeValue, hvalue, Option.isSome_some]
          refine ⟨hle, ⟨c :: chars, List.forall_mem_cons.mpr ⟨hc, hchars⟩, ?_⟩, fun h => absurd h hpad⟩
          rw [hrest, List.cons_append]

/-- Letters and then padding are decoded. -/
theorem decodeChars_padded {t : Bytes} {padding : Nat} (h : padded padding t) (packed : Nat) :
    ∃ packed', decodeChars t 0 packed = some (padding, packed') := by
  obtain ⟨chars, hchars, rfl⟩ := h
  induction chars generalizing packed with
  | nil => exact ⟨_, by rw [List.nil_append, decodeChars_pads, Nat.zero_add]⟩
  | cons c chars ih =>
    obtain ⟨hc, hchars⟩ := List.forall_mem_cons.mp hchars
    obtain ⟨val, hvalue⟩ := Option.isSome_iff_exists.mp ((isSome_decodeValue c).trans hc)
    rw [List.cons_append, decodeChars_digit hvalue]
    exact ih _ hchars

/-- Letters before a padded text. -/
theorem padded_append {g t : Bytes} {padding : Nat} (hg : padded 0 g) (ht : padded padding t) :
    padded padding (g ++ t) := by
  obtain ⟨chars, hchars, rfl⟩ := hg
  obtain ⟨chars', hchars', rfl⟩ := ht
  exact ⟨chars ++ chars', List.forall_mem_append.mpr ⟨hchars, hchars'⟩, by simp⟩

/-- What is in front of the padding is of the alphabet. -/
theorem padded_split {g t : Bytes} {padding : Nat} (h : padded padding (g ++ t)) (hlen : padding ≤ t.length) :
    padded 0 g ∧ padded padding t := by
  obtain ⟨chars, hchars, heq⟩ := h
  rcases List.append_eq_append_iff.mp heq with ⟨mid, rfl, rfl⟩ | ⟨mid, hmid, hrep⟩
  · obtain ⟨hg, hmid⟩ := List.forall_mem_append.mp hchars
    exact ⟨⟨g, hg, by simp⟩, mid, hmid, rfl⟩
  · have hlengths := congrArg List.length hrep
    rw [List.length_replicate, List.length_append] at hlengths
    obtain rfl : mid = [] := List.length_eq_zero_iff.mp (by omega)
    rw [List.append_nil] at hmid
    exact ⟨⟨chars, hchars, by simpa using hmid⟩, [], by simp, by simpa using hrep.symm⟩

/-- Of what is accepted: the form, and how much it is decoded to. -/
theorem decodeGroups_spec {t result : Bytes} (h : decodeGroups t = some result) :
    t.length % 4 = 0 ∧ ∃ padding ≤ 2, padded padding t ∧ result.length + padding = 3 * (t.length / 4) := by
  fun_induction decodeGroups t generalizing result with
  | case1 =>
    cases h
    exact ⟨rfl, 0, by omega, ⟨[], by simp, rfl⟩, rfl⟩
  | case2 c₀ c₁ c₂ c₃ rest ih =>
    obtain ⟨⟨padding, packed⟩, hchars, h⟩ := Option.bind_eq_some_iff.mp h
    obtain ⟨-, hgroup, -⟩ := decodeChars_spec hchars
    dsimp only at h hgroup
    split at h
    · cases h
    · rename_i hgood
      obtain ⟨result', hresult', h⟩ := Option.bind_eq_some_iff.mp h
      cases h
      obtain ⟨hlength, padding', hpadding', hrest, hcount⟩ := ih hresult'
      have hbytes : (groupBytes padding packed).length + padding = 3 :=
        length_groupBytes (Nat.le_of_not_lt fun hmore => hgood (.inr hmore)) packed
      refine ⟨by simp only [List.length_cons]; omega, ?_⟩
      by_cases hnil : rest = []
      · subst hnil
        cases hresult'
        refine ⟨padding, by omega, hgroup, ?_⟩
        simpa using hbytes
      · obtain rfl : padding = 0 := Nat.eq_zero_of_not_pos fun hpos => hgood (.inl ⟨hpos, hnil⟩)
        refine ⟨padding', hpadding', padded_append hgroup hrest, ?_⟩
        simp only [List.length_append, List.length_cons]
        omega
  | case3 => cases h

/-- What is of the form is accepted. -/
theorem decodeGroups_padded {t : Bytes} {padding : Nat} (hfour : t.length % 4 = 0) (hpadding : padding ≤ 2)
    (h : padded padding t) : ∃ result, decodeGroups t = some result := by
  match t with
  | [] => exact ⟨[], rfl⟩
  | [_] | [_, _] | [_, _, _] => cases hfour
  | c₀ :: c₁ :: c₂ :: c₃ :: rest =>
    by_cases hnil : rest = []
    · subst hnil
      obtain ⟨packed, hchars⟩ := decodeChars_padded h 0
      rw [decodeGroups_cons hchars, if_neg (by simp; omega)]
      exact ⟨_, rfl⟩
    · have hlength : rest.length % 4 = 0 := by
        simp only [List.length_cons] at hfour
        omega
      have hpos := List.length_pos_iff.mpr hnil
      obtain ⟨hgroup, hrest⟩ : padded 0 [c₀, c₁, c₂, c₃] ∧ padded padding rest :=
        padded_split (g := [c₀, c₁, c₂, c₃]) h (by omega)
      obtain ⟨packed, hchars⟩ := decodeChars_padded hgroup 0
      obtain ⟨result, hresult⟩ := decodeGroups_padded hlength hpadding hrest
      rw [decodeGroups_cons hchars, if_neg (by simp), hresult]
      exact ⟨_, rfl⟩

/-- **The grammar**: characters of the alphabet and then at most two `=`, in groups of four, with at least two
characters of the alphabet in the last one. -/
structure IsBase64 (t : Bytes) : Prop where
  ne_nil : t ≠ []
  four : t.length % 4 = 0
  chars : ∃ padding ≤ 2, padded padding t
  last : 2 ≤ ((t.drop (t.length - 4)).filter isAlphabet).length

/-- The last group has two letters at least. -/
theorem padded_last {t : Bytes} {padding : Nat} (hlength : 4 ≤ t.length) (hpadding : padding ≤ 2)
    (h : padded padding t) : 2 ≤ ((t.drop (t.length - 4)).filter isAlphabet).length := by
  obtain ⟨chars, hchars, rfl⟩ := h
  rw [List.length_append, List.length_replicate] at hlength ⊢
  rw [List.drop_append_of_le_length (by omega), List.filter_append, List.length_append,
    List.filter_eq_self.mpr fun c hc => hchars c (List.mem_of_mem_drop hc), List.length_drop]
  omega

/-- The padding of a text, counted. -/
theorem padded_count {t : Bytes} {padding : Nat} (h : padded padding t) : t.count 61 = padding := by
  obtain ⟨chars, hchars, rfl⟩ := h
  have hnone : chars.count 61 = 0 := List.count_eq_zero.mpr fun hmem => absurd (hchars 61 hmem) (by decide)
  rw [List.count_append, hnone, List.count_replicate_self, Nat.zero_add]

/-- **What `base64decode` accepts** is the grammar; what it is decoded to has three bytes for every four characters
less one for every `=`, and the writes stay in the buffer of three quarters of the argument. -/
theorem base64decode_spec (t : Bytes) :
    ∃ result, base64decode t = some result ∧ (result ≠ [] ↔ IsBase64 t) ∧
      (result ≠ [] → result.length = 3 * t.length / 4 - t.count 61) := by
  refine ⟨_, base64decode_eq t, ?_, ?_⟩
  · constructor
    · intro hne
      cases hresult : decodeGroups t with
      | none =>
        rw [hresult] at hne
        exact (hne rfl).elim
      | some result =>
        rw [hresult, Option.getD_some] at hne
        obtain ⟨hfour, padding, hpadding, hpadded, hcount⟩ := decodeGroups_spec hresult
        have hpos := List.length_pos_iff.mpr hne
        have hlength : 4 ≤ t.length := by omega
        exact ⟨List.ne_nil_of_length_pos (by omega), hfour, ⟨padding, hpadding, hpadded⟩,
          padded_last hlength hpadding hpadded⟩
    · rintro ⟨hne, hfour, ⟨padding, hpadding, hpadded⟩, -⟩
      obtain ⟨result, hresult⟩ := decodeGroups_padded hfour hpadding hpadded
      obtain ⟨-, padding', hpadding', -, hcount⟩ := decodeGroups_spec hresult
      have hpos := List.length_pos_iff.mpr hne
      rw [hresult, Option.getD_some, ← List.length_pos_iff]
      omega
  · intro hne
    cases hresult : decodeGroups t with
    | none =>
      rw [hresult] at hne
      exact (hne rfl).elim
    | some result =>
      obtain ⟨hfour, padding, hpadding, hpadded, hcount⟩ := decodeGroups_spec hresult
      rw [Option.getD_some, padded_count hpadded]
      omega

end Util
end Wuchat
