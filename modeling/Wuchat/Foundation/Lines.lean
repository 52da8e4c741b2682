/-
# Lines that end in CR LF

`crlfLines` takes a text apart at every CR LF, as a reader of lines does.  What stands between two of them
has none itself (`oneLine_of_mem`), and a CR LF that is put between two texts is one that is found
(`crlfLines_append`), so a text that is printed line by line is read as the lines of its lines
(`crlfLines_flatMap`).
-/

import Wuchat.Foundation.CString

namespace Wuchat
namespace Foundation

/-- CR LF. -/
def CRLF : Bytes := [13, 10]

/-- A byte in front of the first line. -/
def consLine (c : UInt8) : List Bytes → List Bytes
  | [] => [[c]]
  | l :: ls => (c :: l) :: ls

/-- The lines of a text: what stands between its CR LFs. -/
def crlfLines : Bytes → List Bytes
  | [] => [[]]
  | [c] => [[c]]
  | c :: d :: rest => if c = 13 ∧ d = 10 then [] :: crlfLines rest else consLine c (crlfLines (d :: rest))

/-- The text has no CR LF in it. -/
def OneLine (s : Bytes) : Prop := ¬ CRLF <:+: s

/-- Whether a text is one line can be computed. -/
instance (s : Bytes) : Decidable (OneLine s) := inferInstanceAs (Decidable (¬ _))

variable {s t : Bytes} {c : UInt8} {ls : List Bytes}

/-- A CR LF ends a line. -/
@[simp] theorem crlfLines_crlf (rest : Bytes) : crlfLines (13 :: 10 :: rest) = [] :: crlfLines rest := rfl

/-- What does not end a line begins one. -/
theorem crlfLines_other {c d : UInt8} (h : ¬(c = 13 ∧ d = 10)) (rest : Bytes) :
    crlfLines (c :: d :: rest) = consLine c (crlfLines (d :: rest)) := if_neg h

/-- Induction along a text: at its end, at a last byte, behind a CR LF and behind any other byte. -/
theorem crlfLines_induction {P : Bytes → Prop} (nil : P []) (last : ∀ c, P [c])
    (crlf : ∀ rest, P rest → P (13 :: 10 :: rest))
    (other : ∀ c d rest, ¬(c = 13 ∧ d = 10) → P (d :: rest) → P (c :: d :: rest)) : ∀ s, P s
  | [] => nil
  | [c] => last c
  | c :: d :: rest => by
    by_cases h : c = 13 ∧ d = 10
    · obtain ⟨rfl, rfl⟩ := h
      exact crlf rest (crlfLines_induction nil last crlf other rest)
    · exact other c d rest h (crlfLines_induction nil last crlf other (d :: rest))

/-- A text has a line at least. -/
theorem crlfLines_ne_nil (s : Bytes) : crlfLines s ≠ [] := by
  induction s using crlfLines_induction with
  | nil => exact nofun
  | last c => exact nofun
  | crlf rest ih => exact nofun
  | other c d rest h ih =>
    rw [crlfLines_other h]
    cases crlfLines (d :: rest) <;> exact nofun

/-- A byte before some lines is before the first. -/
theorem consLine_append (c : UInt8) (hls : ls ≠ []) (ls' : List Bytes) :
    consLine c (ls ++ ls') = consLine c ls ++ ls' := by
  cases ls with
  | nil => exact absurd rfl hls
  | cons l ls => rfl

/-- A byte that is no CR belongs to the first line. -/
theorem crlfLines_cons (hc : c ≠ 13) (s : Bytes) : crlfLines (c :: s) = consLine c (crlfLines s) := by
  cases s with
  | nil => rfl
  | cons d rest => exact crlfLines_other (fun h => hc h.1) rest

/-- **A CR LF between two texts separates their lines.** -/
theorem crlfLines_append (s t : Bytes) : crlfLines (s ++ CRLF ++ t) = crlfLines s ++ crlfLines t := by
  induction s using crlfLines_induction with
  | nil => rfl
  | last c =>
    show crlfLines (c :: 13 :: 10 :: t) = _
    rw [crlfLines_other fun h => absurd h.2 (by decide)]
    rfl
  | crlf rest ih =>
    show [] :: crlfLines (rest ++ CRLF ++ t) = _
    rw [ih, crlfLines_crlf, List.cons_append]
  | other c d rest h ih =>
    show crlfLines (c :: d :: (rest ++ CRLF ++ t)) = _
    rw [crlfLines_other h, crlfLines_other h, ← consLine_append c (crlfLines_ne_nil _), ← ih]
    rfl

/-- **A text that is printed line by line.** -/
theorem crlfLines_flatMap (ls : List Bytes) (t : Bytes) :
    crlfLines (ls.flatMap (· ++ CRLF) ++ t) = ls.flatMap crlfLines ++ crlfLines t := by
  induction ls with
  | nil => rfl
  | cons l ls ih =>
    rw [List.flatMap_cons, List.append_assoc, crlfLines_append, ih, List.flatMap_cons, List.append_assoc]

/-- The first line is at the start of the text. -/
theorem prefix_of_crlfLines (s : Bytes) : ∀ l ls, crlfLines s = l :: ls → l <+: s := by
  induction s using crlfLines_induction with
  | nil =>
    rintro l ls ⟨⟩
    exact List.prefix_rfl
  | last c =>
    rintro l ls ⟨⟩
    exact List.prefix_rfl
  | crlf rest ih =>
    rintro l ls ⟨⟩
    exact List.nil_prefix
  | other c d rest h ih =>
    intro l ls hl
    rw [crlfLines_other h] at hl
    cases hrest : crlfLines (d :: rest) with
    | nil => exact absurd hrest (crlfLines_ne_nil _)
    | cons l' ls' =>
      rw [hrest] at hl
      obtain ⟨rfl, rfl⟩ := List.cons.inj hl
      exact List.cons_prefix_cons.mpr ⟨rfl, ih l' ls' hrest⟩

/-- **No line has a CR LF in it.** -/
theorem oneLine_of_mem (s : Bytes) : ∀ l ∈ crlfLines s, OneLine l := by
  induction s using crlfLines_induction with
  | nil => exact List.forall_mem_singleton.mpr (by decide)
  | last c => exact List.forall_mem_singleton.mpr fun hin => absurd hin.length_le (Nat.lt_irrefl 1)
  | crlf rest ih => exact List.forall_mem_cons.mpr ⟨by decide, ih⟩
  | other c d rest hcrlf ih =>
    rw [crlfLines_other hcrlf]
    cases hrest : crlfLines (d :: rest) with
    | nil => exact absurd hrest (crlfLines_ne_nil _)
    | cons l ls =>
      rw [hrest, List.forall_mem_cons] at ih
      refine List.forall_mem_cons.mpr ⟨fun hin => ?_, ih.2⟩
      rcases List.infix_cons_iff.mp hin with hpre | hin
      · -- the line goes on with `d`, which is no LF behind a CR
        obtain ⟨hc, hlf⟩ := List.cons_prefix_cons.mp hpre
        obtain ⟨hd, -⟩ := List.cons_prefix_cons.mp (hlf.trans (prefix_of_crlfLines _ _ _ hrest))
        exact hcrlf ⟨hc.symm, hd.symm⟩
      · exact ih.1 hin

/-- **A text without CR LF is one line**, and only such a text. -/
theorem crlfLines_eq_iff : crlfLines s = [s] ↔ OneLine s := by
  constructor
  · intro h
    exact oneLine_of_mem s s (h ▸ List.mem_singleton_self s)
  · intro h
    induction s using crlfLines_induction with
    | nil => rfl
    | last c => rfl
    | crlf rest ih => exact absurd (List.infix_append [] CRLF rest) h
    | other c d rest hcrlf ih =>
      rw [crlfLines_other hcrlf, ih fun hin => h (hin.trans (List.suffix_cons c _).isInfix)]
      rfl

/-- A text without CR is one line. -/
theorem oneLine_of_cr (h : 13 ∉ s) : OneLine s := fun hin => h (hin.subset List.mem_cons_self)

/-- A text without CR in front of another makes no CR LF. -/
theorem oneLine_append_iff (h : 13 ∉ s) : OneLine (s ++ t) ↔ OneLine t := by
  induction s with
  | nil => exact Iff.rfl
  | cons c s ih =>
    rw [List.mem_cons, not_or] at h
    rw [← ih h.2, OneLine, OneLine, List.cons_append, List.infix_cons_iff, not_or]
    refine and_iff_right fun hpre => ?_
    exact h.1 (List.cons_prefix_cons.mp hpre).1

/-- Lines that are printed one by one are read as they are. -/
theorem flatMap_crlfLines (h : ∀ l ∈ ls, OneLine l) : ls.flatMap crlfLines = ls := by
  induction ls with
  | nil => rfl
  | cons l ls ih =>
    rw [List.forall_mem_cons] at h
    rw [List.flatMap_cons, crlfLines_eq_iff.mpr h.1, ih h.2]
    rfl

end Foundation
end Wuchat
