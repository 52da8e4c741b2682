/-
# Byte strings and the C string functions on them

A `std::string` is a list of bytes.  `c_str()` hands a C function the bytes up
to the first NUL, so `strcasecmp` cannot tell apart two strings that agree up to
there and up to the case of ASCII letters: `caseFold` is what it sees of a
string, and `strcasecmp a b = 0` is `caseFold a = caseFold b`
(`strcasecmp_eq_zero_iff`).

`bytesLess` is `operator<` of `std::string`, the lexicographic order of unsigned
bytes.  Both orders are comparisons for `OrdMap` (`bytesLess_keyed`,
`caseLess_keyed`).
-/

import Wuchat.Foundation.OrdMap

namespace Wuchat
namespace Foundation

/-- A `std::string`, or a buffer of bytes. -/
abbrev Bytes := List UInt8

/-- The bytes of an ASCII literal. -/
def str (s : String) : Bytes := s.toList.map fun c => UInt8.ofNat c.toNat

/-- The bytes a C function sees of a `std::string`. -/
def cstr (s : Bytes) : Bytes := s.takeWhile (· ≠ 0)

/-- `tolower` in the C locale. -/
def tolower (c : UInt8) : UInt8 := if 65 ≤ c ∧ c ≤ 90 then c + 32 else c

/-- `isxdigit` in the C locale. -/
def isxdigit (c : UInt8) : Bool := (48 ≤ c && c ≤ 57) || (65 ≤ c && c ≤ 70) || (97 ≤ c && c ≤ 102)

/-- What a case-insensitive comparison sees of a string. -/
def caseFold (s : Bytes) : Bytes := (cstr s).map tolower

/-- `strcasecmp(a.c_str(), b.c_str())`: the difference of the first two bytes
that differ after `tolower`, or `0` at a common NUL. -/
def strcasecmp : Bytes → Bytes → Int
  | [], [] => 0
  | [], b :: _ => -(tolower b).toNat
  | a :: _, [] => (tolower a).toNat
  | a :: as, b :: bs =>
    if tolower a = tolower b then if a = 0 then 0 else strcasecmp as bs
    else (tolower a).toNat - (tolower b).toNat

/-- `a < b` on `std::string`. -/
def bytesLess : Bytes → Bytes → Bool
  | _, [] => false
  | [], _ :: _ => true
  | a :: as, b :: bs => if a < b then true else if b < a then false else bytesLess as bs

/-- `CaseInsensitiveLess`-style comparison: `strcasecmp(a, b) < 0`. -/
def caseLess (a b : Bytes) : Bool := strcasecmp a b < 0

/-- The bytes of a literal come from its characters.  To compute with a long literal one rewrites with this first:
`String.toList` would read the text again. -/
theorem str_ofList (l : List Char) : str (String.ofList l) = l.map fun c => UInt8.ofNat c.toNat := by
  rw [str, String.toList_ofList]

/-- A property of bytes is checked on the 256 of them. -/
theorem forall_byte {P : UInt8 → Prop} (h : ∀ n : Fin 256, P (UInt8.ofNat n)) (c : UInt8) : P c := by
  have := h ⟨c.toNat, c.toNat_lt⟩
  rwa [UInt8.ofNat_toNat] at this

/-- The two halves of a byte. -/
theorem halves_spec (c : UInt8) :
    (c >>> 4).toNat < 16 ∧ (c &&& 0xf).toNat < 16 ∧ (c >>> 4) <<< 4 ||| (c &&& 0xf) = c := by
  revert c
  exact forall_byte (by decide +kernel)

/-- The high half of a byte needs no mask. -/
theorem high_and_mask (c : UInt8) : (c >>> 4 &&& 0xf : UInt8) = c >>> 4 := by
  rw [← UInt8.toNat_inj, UInt8.toNat_and]
  exact (Nat.and_two_pow_sub_one_eq_mod _ 4).trans (Nat.mod_eq_of_lt (halves_spec c).1)

/-- Only the zero byte is folded to zero. -/
theorem tolower_eq_zero {c : UInt8} : tolower c = 0 ↔ c = 0 := by
  unfold tolower
  split
  · rename_i h
    have hlow : 65 ≤ c.toNat := h.1
    have hhigh : c.toNat ≤ 90 := h.2
    rw [← UInt8.toNat_inj, ← UInt8.toNat_inj, UInt8.toNat_add]
    show (c.toNat + 32) % 256 = 0 ↔ c.toNat = 0
    omega
  · exact Iff.rfl

/-- What C sees of a string, byte by byte. -/
theorem cstr_cons (c : UInt8) (s : Bytes) : cstr (c :: s) = if c = 0 then [] else c :: cstr s := by
  by_cases h : c = 0 <;> simp [cstr, h]

/-- Swapping the arguments negates the result. -/
theorem strcasecmp_swap : ∀ a b : Bytes, strcasecmp b a = -strcasecmp a b
  | [], [] => rfl
  | [], b :: bs => by rw [strcasecmp, strcasecmp]; omega
  | a :: as, [] => rfl
  | a :: as, b :: bs => by
    rw [strcasecmp, strcasecmp]
    by_cases h : tolower a = tolower b
    · have h0 : b = 0 ↔ a = 0 := by rw [← tolower_eq_zero, ← h, tolower_eq_zero]
      rw [if_pos h.symm, if_pos h]
      by_cases ha : a = 0
      · rw [if_pos (h0.2 ha), if_pos ha]
        rfl
      · rw [if_neg (mt h0.1 ha), if_neg ha]
        exact strcasecmp_swap as bs
    · rw [if_neg (Ne.symm h), if_neg h]
      omega

/-- **`strcasecmp` answers `0` exactly on strings with the same case fold.** -/
theorem strcasecmp_eq_zero_iff : ∀ a b : Bytes, strcasecmp a b = 0 ↔ caseFold a = caseFold b
  | [], [] => by simp [strcasecmp]
  | [], b :: bs => by
    have hb : (tolower b).toNat = 0 ↔ b = 0 := by
      rw [← tolower_eq_zero, ← UInt8.toNat_inj, UInt8.toNat_zero]
    rw [strcasecmp, caseFold, caseFold, cstr_cons]
    by_cases h : b = 0
    · simp [h, cstr, tolower]
    · have := mt hb.1 h
      simp [h, cstr]
      omega
  | a :: as, [] => by
    have ha : (tolower a).toNat = 0 ↔ a = 0 := by
      rw [← tolower_eq_zero, ← UInt8.toNat_inj, UInt8.toNat_zero]
    rw [strcasecmp, caseFold, caseFold, cstr_cons]
    by_cases h : a = 0
    · simp [h, cstr, tolower]
    · have := mt ha.1 h
      simp [h, cstr]
      omega
  | a :: as, b :: bs => by
    rw [strcasecmp, caseFold, caseFold, cstr_cons, cstr_cons]
    by_cases h : tolower a = tolower b
    · have h0 : b = 0 ↔ a = 0 := by rw [← tolower_eq_zero, ← h, tolower_eq_zero]
      rw [if_pos h]
      by_cases ha : a = 0
      · simp [ha, h0.2 ha]
      · rw [if_neg ha, if_neg ha, if_neg (mt h0.1 ha), strcasecmp_eq_zero_iff as bs]
        simp [h, caseFold]
    · rw [if_neg h]
      have hne : (tolower a).toNat ≠ (tolower b).toNat := fun hc => h (UInt8.toNat_inj.1 hc)
      refine ⟨fun hz => absurd hz (by omega), fun hf => ?_⟩
      by_cases ha : a = 0 <;> by_cases hb : b = 0 <;> simp [ha, hb] at hf h
      exact absurd hf.1 h

/-- The case-insensitive order identifies strings with the same case fold. -/
theorem caseLess_keyed : KeyedBy caseLess caseFold where
  eqv_iff a b := by
    rw [← strcasecmp_eq_zero_iff, eqv, caseLess, caseLess, strcasecmp_swap a b]
    simp
    omega

/-- Of two texts one is smaller, or they are equal. -/
theorem bytesLess_total : ∀ a b : Bytes, bytesLess a b = false → bytesLess b a = false → a = b
  | [], [], _, _ => rfl
  | [], _ :: _, h, _ => by cases h
  | _ :: _, [], _, h => by cases h
  | a :: as, b :: bs, h₁, h₂ => by
    rw [bytesLess] at h₁ h₂
    have hab : ¬ a < b := fun hlt => by simp [hlt] at h₁
    have hba : ¬ b < a := fun hlt => by simp [hlt] at h₂
    rw [if_neg hab, if_neg hba] at h₁
    rw [if_neg hba, if_neg hab] at h₂
    have : a = b := UInt8.le_antisymm (UInt8.not_lt.1 hba) (UInt8.not_lt.1 hab)
    rw [this, bytesLess_total as bs h₁ h₂]

/-- No text is smaller than itself. -/
theorem bytesLess_irrefl : ∀ a : Bytes, bytesLess a a = false
  | [] => rfl
  | a :: as => by
    rw [bytesLess, if_neg (UInt8.lt_irrefl a), if_neg (UInt8.lt_irrefl a), bytesLess_irrefl as]

/-- The byte order identifies equal strings only. -/
theorem bytesLess_keyed : KeyedBy bytesLess id where
  eqv_iff a b := by
    simp only [eqv, Bool.and_eq_true, Bool.not_eq_eq_eq_not, Bool.not_true, id]
    refine ⟨fun h => bytesLess_total a b h.1 h.2, ?_⟩
    rintro rfl
    exact ⟨bytesLess_irrefl a, bytesLess_irrefl a⟩

/-- The order of texts is transitive. -/
theorem bytesLess_trans : ∀ a b c : Bytes, bytesLess a b = true → bytesLess b c = true → bytesLess a c = true
  | _, [], [], _, h => by cases h
  | _, _ :: _, [], _, h => by cases h
  | [], _, _ :: _, _, _ => rfl
  | _ :: _, [], _ :: _, h, _ => by cases h
  | a :: as, b :: bs, c :: cs, h₁, h₂ => by
    have htrans := bytesLess_trans as bs cs
    have hinj : ∀ {x y : UInt8}, x.toNat = y.toNat → x = y := UInt8.toNat_inj.1
    simp only [bytesLess, UInt8.lt_iff_toNat_lt] at h₁ h₂ ⊢
    grind

/-- The case-insensitive order is the byte order of the case folds. -/
theorem caseLess_eq : ∀ a b : Bytes, caseLess a b = bytesLess (caseFold a) (caseFold b)
  | [], [] => rfl
  | [], b :: bs => by
    have hb : (tolower b).toNat = 0 ↔ b = 0 := by
      rw [← tolower_eq_zero, ← UInt8.toNat_inj, UInt8.toNat_zero]
    rw [caseLess, strcasecmp, caseFold, caseFold, cstr_cons]
    by_cases h : b = 0
    · simp [h, cstr, tolower, bytesLess]
    · have := mt hb.1 h
      simp [h, cstr, bytesLess]
      omega
  | a :: as, [] => by
    rw [caseLess, strcasecmp, caseFold, caseFold, cstr_cons]
    by_cases h : a = 0
    · simp [h, cstr, tolower, bytesLess]
    · simp [h, cstr, bytesLess]
  | a :: as, b :: bs => by
    have ih := caseLess_eq as bs
    rw [caseLess] at ih
    rw [caseLess, strcasecmp, caseFold, caseFold, cstr_cons, cstr_cons]
    by_cases h : tolower a = tolower b
    · have h0 : b = 0 ↔ a = 0 := by rw [← tolower_eq_zero, ← h, tolower_eq_zero]
      rw [if_pos h]
      by_cases ha : a = 0
      · simp [ha, h0.2 ha, bytesLess]
      · rw [if_neg ha, if_neg ha, if_neg (mt h0.1 ha), ih, List.map_cons, List.map_cons, ← h, bytesLess,
          if_neg (UInt8.lt_irrefl _), if_neg (UInt8.lt_irrefl _)]
        rfl
    · rw [if_neg h]
      have hne : (tolower a).toNat ≠ (tolower b).toNat := fun hc => h (UInt8.toNat_inj.1 hc)
      have hzero : tolower 0 = 0 := by decide
      by_cases ha : a = 0
      · by_cases hb : b = 0
        · simp [ha, hb] at h
        · have hpos : 0 < (tolower b).toNat := by
            simp only [ha, hzero, UInt8.toNat_zero] at hne
            omega
          simp [ha, hb, hzero, bytesLess, hpos]
      · by_cases hb : b = 0
        · simp [ha, hb, hzero, bytesLess]
        · have hdiff : decide (((tolower a).toNat : Int) - (tolower b).toNat < 0) =
              decide (tolower a < tolower b) := by
            refine decide_eq_decide.mpr ?_
            rw [UInt8.lt_iff_toNat_lt]
            omega
          rw [hdiff, if_neg ha, if_neg hb, List.map_cons, List.map_cons, bytesLess]
          by_cases hlt : tolower a < tolower b
          · rw [if_pos hlt, decide_eq_true hlt]
          · have hgt : tolower b < tolower a := by
              rw [UInt8.lt_iff_toNat_lt] at hlt ⊢
              omega
            rw [if_neg hlt, if_pos hgt, decide_eq_false hlt]

/-- So is the order that folds them. -/
theorem caseLess_trans (a b c : Bytes) (h₁ : caseLess a b = true) (h₂ : caseLess b c = true) :
    caseLess a c = true := by
  rw [caseLess_eq] at *
  exact bytesLess_trans _ _ _ h₁ h₂

example : caseLess (str "Upgrade") (str "uPGRADE") = false ∧ caseLess (str "A") (str "b") = true := by
  decide

end Foundation
end Wuchat
