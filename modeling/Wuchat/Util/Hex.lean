/-
# Hexadecimal strings

`util/hash_util.cpp`: `hexstring_from_data` and `data_from_hexstring`.

The encoder writes two characters for every byte, in lower case.  The decoder reads two
characters in every turn of its loop, in either case, and throws in the middle of a pair
when a character is no digit.  A `std::invalid_argument` is its text.
-/

import Wuchat.Foundation.CString

namespace Wuchat
namespace Util

open Foundation

/-- `(c > 9) ? c + 'a' - 10 : c + '0'`, the character of half a byte. -/
def hexChar (c : UInt8) : UInt8 := if c > 9 then c + 97 - 10 else c + 48

/-- `hexstring_from_data(data)`. -/
def hexstring_from_data : Bytes → Bytes
  | [] => []
  | b :: rest => hexChar ((b >>> 4) &&& 0xf) :: hexChar (b &&& 0xf) :: hexstring_from_data rest

/-- The cases of the `switch` on a character: the value of a digit. -/
def hexValue (c : UInt8) : Option UInt8 :=
  if 97 ≤ c ∧ c ≤ 102 then some (c - 97 + 10)
  else if 65 ≤ c ∧ c ≤ 70 then some (c - 65 + 10)
  else if 48 ≤ c ∧ c ≤ 57 then some (c - 48)
  else none

/-- The `switch`, with its default. -/
def hexSwitch (c : UInt8) : Except String UInt8 :=
  match hexValue c with
  | some value => .ok value
  | none => .error "data_from_hexstring invalid hexstring"

/-- The loop of `data_from_hexstring`.  Behind a last character alone there is the NUL. -/
def hexLoop : Bytes → Except String Bytes
  | [] => .ok []
  | [c] => do
    let _ ← hexSwitch c
    let _ ← hexSwitch 0
    return []
  | c :: c' :: rest => do
    let high ← hexSwitch c
    let low ← hexSwitch c'
    return (high <<< 4 ||| low) :: (← hexLoop rest)

/-- `data_from_hexstring(hexstring)`. -/
def data_from_hexstring (hexstring : Bytes) : Except String Bytes :=
  if hexstring.length % 2 ≠ 0 then .error "data_from_hexstring length % 2 != 0"
  else if hexstring.length = 0 then .ok []
  else hexLoop hexstring

/-! ### Digits -/

/-- Half a byte is read back from its character. -/
theorem hexValue_hexChar : ∀ n < 16, hexValue (hexChar (UInt8.ofNat n)) = some (UInt8.ofNat n) := by
  decide

/-- **The `switch` takes the hexadecimal digits**, and the value of a digit has that digit in lower case
as its character. -/
theorem hexValue_spec (c : UInt8) :
    (isxdigit c = true ∧ ∃ n < 16, hexValue c = some (UInt8.ofNat n) ∧ hexChar (UInt8.ofNat n) = tolower c) ∨
      (isxdigit c = false ∧ hexValue c = none) := by
  revert c
  exact forall_byte (by decide +kernel)

/-- The halves of a byte made of two. -/
theorem halves_join : ∀ h < 16, ∀ l < 16,
    (((UInt8.ofNat h <<< 4 ||| UInt8.ofNat l) >>> 4) &&& 0xf) = UInt8.ofNat h ∧
      ((UInt8.ofNat h <<< 4 ||| UInt8.ofNat l) &&& 0xf) = UInt8.ofNat l := by
  decide

/-! ### There and back -/

/-- What is printed is read back. -/
theorem hexLoop_hexstring_from_data (d : Bytes) : hexLoop (hexstring_from_data d) = .ok d := by
  induction d with
  | nil => rfl
  | cons b d ih =>
    obtain ⟨hhigh, hlow, hbyte⟩ := halves_spec b
    have hh := hexValue_hexChar _ hhigh
    have hl := hexValue_hexChar _ hlow
    rw [UInt8.ofNat_toNat] at hh hl
    rw [hexstring_from_data, hexLoop, hexSwitch, hexSwitch, high_and_mask, hh, hl, ih]
    simp only [Bind.bind, Except.bind, pure, Except.pure, hbyte]

/-- **What the loop does with a string of even length**: it throws at a character that is no digit, and else
gives the data whose string it is, up to case. -/
theorem hexLoop_spec (h : Bytes) (heven : h.length % 2 = 0) :
    ((∀ c ∈ h, isxdigit c = true) ∧ ∃ d, hexLoop h = .ok d ∧ hexstring_from_data d = h.map tolower) ∨
      ((∃ c ∈ h, isxdigit c = false) ∧ ∃ error, hexLoop h = .error error) := by
  match h with
  | [] => exact .inl ⟨List.forall_mem_nil _, [], rfl, rfl⟩
  | [_] => cases heven
  | c :: c' :: rest =>
    rcases hexValue_spec c with ⟨hc, n, hn, hvalue, hchar⟩ | ⟨hc, hvalue⟩
    · rcases hexValue_spec c' with ⟨hc', n', hn', hvalue', hchar'⟩ | ⟨hc', hvalue'⟩
      · have hrest : rest.length % 2 = 0 := by
          rw [List.length_cons, List.length_cons] at heven
          omega
        rcases hexLoop_spec rest hrest with ⟨hall, d, hloop, hd⟩ | ⟨⟨x, hx, hbad⟩, error, hloop⟩
        · refine .inl ⟨?_, (UInt8.ofNat n <<< 4 ||| UInt8.ofNat n') :: d, ?_, ?_⟩
          · rw [List.forall_mem_cons, List.forall_mem_cons]
            exact ⟨hc, hc', hall⟩
          · rw [hexLoop, hexSwitch, hexSwitch, hvalue, hvalue', hloop]
            rfl
          · obtain ⟨hhigh, hlow⟩ := halves_join n hn n' hn'
            rw [hexstring_from_data, hhigh, hlow, hchar, hchar', hd, List.map_cons, List.map_cons]
        · refine .inr ⟨⟨x, List.mem_cons_of_mem _ (List.mem_cons_of_mem _ hx), hbad⟩, error, ?_⟩
          rw [hexLoop, hexSwitch, hexSwitch, hvalue, hvalue', hloop]
          rfl
      · refine .inr ⟨⟨c', List.mem_cons_of_mem _ List.mem_cons_self, hc'⟩,
          "data_from_hexstring invalid hexstring", ?_⟩
        rw [hexLoop, hexSwitch, hexSwitch, hvalue, hvalue']
        rfl
    · refine .inr ⟨⟨c, List.mem_cons_self, hc⟩, "data_from_hexstring invalid hexstring", ?_⟩
      rw [hexLoop, hexSwitch, hvalue]
      rfl

/-- Nothing is no exception to the loop. -/
theorem data_from_hexstring_of_even {h : Bytes} (heven : h.length % 2 = 0) : data_from_hexstring h = hexLoop h := by
  rw [data_from_hexstring, if_neg (not_not_intro heven)]
  split
  · rename_i hzero
    rw [List.eq_nil_of_length_eq_zero hzero]
    rfl
  · rfl

/-- Two digits for each byte. -/
theorem length_hexstring_from_data (d : Bytes) : (hexstring_from_data d).length = 2 * d.length := by
  induction d with
  | nil => rfl
  | cons b d ih =>
    rw [hexstring_from_data, List.length_cons, List.length_cons, List.length_cons, ih]
    omega

/-- **Hexadecimal strings**: data is read back from its string; a string is refused exactly when its
length is odd or a character of it is no digit; and else its data has it as its string, in lower case. -/
theorem hexstring_roundTrip (d h : Bytes) :
    data_from_hexstring (hexstring_from_data d) = .ok d ∧
      ((∃ error, data_from_hexstring h = .error error) ↔ h.length % 2 = 1 ∨ ∃ c ∈ h, isxdigit c = false) ∧
      ∀ d', data_from_hexstring h = .ok d' → hexstring_from_data d' = h.map tolower := by
  have hlength : (hexstring_from_data d).length % 2 = 0 := by
    rw [length_hexstring_from_data]
    omega
  refine ⟨by rw [data_from_hexstring_of_even hlength, hexLoop_hexstring_from_data], ?_⟩
  rcases Nat.mod_two_eq_zero_or_one h.length with heven | hodd
  · rw [data_from_hexstring_of_even heven, heven]
    rcases hexLoop_spec h heven with ⟨hall, d', hloop, hd'⟩ | ⟨hbad, error, hloop⟩
    · rw [hloop]
      refine ⟨iff_of_false nofun ?_, fun d'' h' => ?_⟩
      · rintro (hodd | ⟨c, hc, hbad⟩)
        · cases hodd
        · rw [hall c hc] at hbad
          cases hbad
      · obtain rfl := Except.ok.inj h'
        exact hd'
    · rw [hloop]
      exact ⟨iff_of_true ⟨error, rfl⟩ (.inr hbad), nofun⟩
  · have herror : data_from_hexstring h = .error "data_from_hexstring length % 2 != 0" := by
      rw [data_from_hexstring, if_pos (by omega)]
    rw [herror]
    exact ⟨iff_of_true ⟨_, rfl⟩ (.inl hodd), nofun⟩

example : hexstring_from_data [0xab, 7] = str "ab07" ∧
    (data_from_hexstring (str "AB07")).toOption = some [0xab, 7] := by
  decide

end Util
end Wuchat
