/-
# The patterns of the formatter

A pattern is a sequence of elements (`Element`): characters, directives, and dates with a format in
braces or without one.  What is left behind the last element is nothing, a `%`, a `%d` without
anything behind it, or a `%d` with braces that are not closed (`Tail`), and every pattern is of this
form (`exists_elements`).

`init` goes through the elements one after the other (`scan_elements`).  At a `%d` without anything
behind it, it takes the end for the opening brace and reads behind the terminator; in all other
cases it stays within the pattern (`init_ended_iff`).
-/

import Mathlib.Algebra.GroupWithZero.Nat
import Wuchat.Log.Formatter

namespace Wuchat
namespace Log
namespace LogFormatter

open Foundation

/-- An element of a pattern: a character, a directive that is no date, or a date. -/
inductive Element
  | literal (c : UInt8)
  | directive (c : UInt8)
  | date (fmt : Option Bytes)
  deriving DecidableEq, Repr

/-- What stands in the pattern: `c`, `%c`, `%d` or `%d` with the format in braces. -/
def Element.text : Element → Bytes
  | literal c => [c]
  | directive c => [37, c]
  | date none => [37, 100]
  | date (some fmt) => [37, 100, 123] ++ fmt ++ [125]

/-- The text of some elements. -/
def texts (es : List Element) : Bytes := es.flatMap Element.text

/-- The element can stand before the rest: no character is `%`, no directive `%d`, a date without braces has
a character behind it that is no brace, and no format has a closing brace in it. -/
def Element.Before (rest : Bytes) : Element → Prop
  | literal c => c ≠ 37
  | directive c => c ≠ 100
  | date none => ∃ c rest', rest = c :: rest' ∧ c ≠ 123
  | date (some fmt) => 125 ∉ fmt

/-- The elements can stand in this order before the rest. -/
def Valid : List Element → Bytes → Prop
  | [], _ => True
  | e :: es, rest => e.Before (texts es ++ rest) ∧ Valid es rest

/-- What is behind the last element. -/
inductive Tail
  | nothing
  | percent
  | bareDate
  | openDate (fmt : Bytes)
  deriving DecidableEq, Repr

/-- The text of a tail. -/
def Tail.text : Tail → Bytes
  | nothing => []
  | percent => [37]
  | bareDate => [37, 100]
  | openDate fmt => [37, 100, 123] ++ fmt

/-- A format that is not closed has no closing brace. -/
def Tail.Valid : Tail → Prop
  | openDate fmt => 125 ∉ fmt
  | _ => True

/-- **Every pattern is a sequence of elements and a tail.** -/
theorem exists_elements (p : Bytes) :
    ∃ es tail, Valid es (Tail.text tail) ∧ tail.Valid ∧ p = texts es ++ tail.text := by
  match p with
  | [] => exact ⟨[], .nothing, trivial, trivial, rfl⟩
  | c :: rest =>
    by_cases hpercent : c = 37
    · subst hpercent
      match rest with
      | [] => exact ⟨[], .percent, trivial, trivial, rfl⟩
      | c :: rest =>
        by_cases hdate : c = 100
        · subst hdate
          match rest with
          | [] => exact ⟨[], .bareDate, trivial, trivial, rfl⟩
          | c :: rest =>
            by_cases hbrace : c = 123
            · subst hbrace
              by_cases hclosed : 125 ∈ rest
              · obtain ⟨fmt, rest', rfl, hfmt⟩ := List.eq_append_cons_of_mem hclosed
                obtain ⟨es, tail, hes, htail, rfl⟩ := exists_elements rest'
                refine ⟨.date (some fmt) :: es, tail, ⟨hfmt, hes⟩, htail, ?_⟩
                simp [texts, Element.text]
              · exact ⟨[], .openDate rest, trivial, hclosed, rfl⟩
            · obtain ⟨es, tail, hes, htail, heq⟩ := exists_elements (c :: rest)
              refine ⟨.date none :: es, tail, ⟨⟨c, rest, heq.symm, hbrace⟩, hes⟩, htail, ?_⟩
              rw [heq]
              rfl
        · obtain ⟨es, tail, hes, htail, rfl⟩ := exists_elements rest
          exact ⟨.directive c :: es, tail, ⟨hdate, hes⟩, htail, rfl⟩
    · obtain ⟨es, tail, hes, htail, rfl⟩ := exists_elements rest
      exact ⟨.literal c :: es, tail, ⟨hpercent, hes⟩, htail, rfl⟩
termination_by p.length
decreasing_by all_goals simp_all; try omega

/-! ### The loop over an element -/

/-- The variables after an element. -/
def Scan.after (s : Scan) (e : Element) : Scan :=
  match e with
  | .literal c => { s with tmp := s.tmp ++ [c], i := s.i + 1 }
  | .directive c => { s with patterns := s.patterns ++ flush s.tmp ++ [.template c], tmp := [], i := s.i + 2 }
  | .date fmt => { s with
      patterns := s.patterns ++ flush s.tmp ++ [.template 100]
      tmp := []
      data_format := s.data_format ++ fmt.getD []
      i := s.i + (Element.date fmt).text.length }

/-- How many rounds an element takes. -/
def Element.rounds : Element → Nat
  | literal _ => 1
  | _ => 2

/-- A format is read up to its closing brace, or to the end. -/
theorem readFormat_eq {fmt : Bytes} (hfmt : 125 ∉ fmt) (rest : Bytes) (i : Nat) (data_format : Bytes) :
    readFormat (fmt ++ 125 :: rest) i data_format = (i + fmt.length, data_format ++ fmt) ∧
      readFormat fmt i data_format = (i + fmt.length, data_format ++ fmt) := by
  induction fmt generalizing i data_format with
  | nil => simp [readFormat]
  | cons c fmt ih =>
    rw [List.mem_cons, not_or] at hfmt
    obtain ⟨hc, hfmt⟩ := hfmt
    have hne : c ≠ 125 := Ne.symm hc
    obtain ⟨hclosed, hopen⟩ := ih hfmt (i + 1) (data_format ++ [c])
    constructor
    · rw [List.cons_append, readFormat, if_pos hne, hclosed]
      simp [Nat.add_comm, Nat.add_left_comm]
    · rw [readFormat, if_pos hne, hopen]
      simp [Nat.add_comm, Nat.add_left_comm]

variable {p pre rest : Bytes} {s : Scan}

/-- One round of the scan, then the others. -/
theorem scan_ended {c : UInt8} {t : Scan} (hc : p[s.i]? = some c) (hround : round p s c = .ended t) (fuel : Nat) :
    scan p (fuel + 1) s = scan p fuel t := by
  rw [scan, hc]
  dsimp only
  rw [hround]

/-- The round at a `%` that opens a directive. -/
theorem scan_percent (hp : p = pre ++ 37 :: rest) (hi : s.i = pre.length) (hstring : s.parsing_string = true)
    (fuel : Nat) : scan p (fuel + 1) s = scan p fuel
      { s with patterns := s.patterns ++ flush s.tmp, tmp := [], parsing_string := false, i := s.i + 1 } := by
  refine scan_ended (c := 37) (by rw [hp, hi]; simp) ?_ fuel
  rw [round, if_pos rfl, if_pos hstring]

/-- What stands behind an opened format. -/
theorem drop_open (pre rest : Bytes) (a b c : UInt8) :
    (pre ++ a :: b :: c :: rest).drop (pre.length + 2 + 1) = rest := by
  rw [List.append_cons, List.append_cons, List.append_cons]
  exact List.drop_left' (by simp)

/-- The two rounds at `%d`: what the second one does is `readDate`. -/
theorem scan_date {t : Scan} (hp : p = pre ++ 37 :: 100 :: rest) (hi : s.i = pre.length)
    (hstring : s.parsing_string = true) (ht : t = { s with
      patterns := s.patterns ++ flush s.tmp ++ [.template 100], tmp := [], i := s.i + 2 }) (fuel : Nat) :
    scan p (fuel + 2) s =
      match readDate p t with
      | .ended t => scan p fuel t
      | r => r := by
  subst ht
  rw [scan_percent hp hi hstring, scan]
  have hc : p[s.i + 1]? = some 100 := by rw [hp, hi]; simp
  dsimp only
  rw [hc]
  simp only [round, hstring]
  rfl

/-- **The loop takes an element as a whole.** -/
theorem scan_element {e : Element} (hp : p = pre ++ e.text ++ rest) (he : e.Before rest) (hi : s.i = pre.length)
    (hstring : s.parsing_string = true) (fuel : Nat) :
    scan p (fuel + e.rounds) s = scan p fuel (s.after e) := by
  match e with
  | .literal c =>
    refine scan_ended (c := c) (by rw [hp, hi]; simp [Element.text]) ?_ fuel
    rw [round, if_neg he, if_pos hstring]
    rfl
  | .directive c =>
    have hp' : p = pre ++ 37 :: c :: rest := by rw [hp]; simp [Element.text]
    rw [show fuel + Element.rounds (.directive c) = fuel + 1 + 1 from rfl, scan_percent hp' hi hstring]
    refine scan_ended (c := c) (by rw [hp', hi]; simp) ?_ fuel
    simp only [round, Bool.false_eq_true, if_false, Scan.after, hstring, ne_eq, if_pos (show ¬c = 100 from he)]
    split <;> rfl
  | .date none =>
    obtain ⟨c, rest', rfl, hc⟩ := he
    have hp' : p = pre ++ 37 :: 100 :: c :: rest' := by rw [hp]; simp [Element.text]
    have hread : p[s.i + 2]? = some c := by rw [hp', hi]; simp
    rw [show fuel + Element.rounds (.date none) = fuel + 2 from rfl, scan_date hp' hi hstring rfl, readDate, if_pos]
    · simp [Scan.after, Element.text]
    · dsimp only
      rw [hread]
      simpa using hc
  | .date (some fmt) =>
    have hp' : p = pre ++ 37 :: 100 :: 123 :: (fmt ++ 125 :: rest) := by rw [hp]; simp [Element.text]
    have hread : p[s.i + 2]? = some 123 := by rw [hp', hi]; simp
    have hdrop : p.drop (s.i + 2 + 1) = fmt ++ 125 :: rest := by rw [hp', hi, drop_open]
    have hclose : charAt p (s.i + 2 + 1 + fmt.length) = some 125 := by
      have hat : p[s.i + 2 + 1 + fmt.length]? = some 125 := by
        rw [← List.getElem?_drop, hdrop]
        simp
      have hlt := (List.getElem?_eq_some_iff.mp hat).1
      rw [charAt, if_neg (by omega), hat]
    have hlen : (Element.date (some fmt)).text.length = 3 + fmt.length + 1 := by simp [Element.text]; omega
    rw [show fuel + Element.rounds (.date (some fmt)) = fuel + 2 from rfl, scan_date hp' hi hstring rfl, readDate,
      if_neg]
    · simp only [hdrop, (readFormat_eq he rest _ _).1, hclose, ne_eq, not_true_eq_false, if_false, Scan.after, hlen,
        Option.getD_some]
      congr 2
      omega
    · simp [hread]

/-- The scan is behind the element. -/
theorem after_i (s : Scan) (e : Element) : (s.after e).i = s.i + e.text.length := by
  cases e <;> rfl

/-- It parses text as before. -/
theorem after_parsing (s : Scan) (e : Element) : (s.after e).parsing_string = s.parsing_string := by
  cases e <;> rfl

/-- **The loop takes the elements one after the other.** -/
theorem scan_elements {es : List Element} (hp : p = pre ++ texts es ++ rest) (hes : Valid es rest)
    (hi : s.i = pre.length) (hstring : s.parsing_string = true) (fuel : Nat) :
    scan p (fuel + (es.map Element.rounds).sum) s = scan p fuel (es.foldl Scan.after s) ∧
      (es.foldl Scan.after s).i = (pre ++ texts es).length ∧ (es.foldl Scan.after s).parsing_string = true := by
  induction es generalizing pre s with
  | nil => exact ⟨rfl, hi.trans (by simp [texts]), hstring⟩
  | cons e es ih =>
    have hp' : p = pre ++ e.text ++ (texts es ++ rest) := by rw [hp]; simp [texts]
    have hstep := scan_element hp' hes.1 hi hstring (fuel + (es.map Element.rounds).sum)
    have hp'' : p = (pre ++ e.text) ++ texts es ++ rest := by rw [hp']; simp
    have hi' : (s.after e).i = (pre ++ e.text).length := by rw [after_i, hi, List.length_append]
    obtain ⟨hscan, hend, hstring'⟩ := ih hp'' hes.2 hi' ((after_parsing s e).trans hstring)
    refine ⟨?_, ?_, hstring'⟩
    · rw [List.map_cons, List.sum_cons, Nat.add_comm e.rounds, ← Nat.add_assoc, hstep]
      exact hscan
    · rw [List.foldl_cons, hend]
      simp [texts]

/-- No element takes more rounds than it has characters. -/
theorem rounds_le (es : List Element) : (es.map Element.rounds).sum ≤ (texts es).length := by
  induction es with
  | nil => exact Nat.le_refl 0
  | cons e es ih =>
    have he : e.rounds ≤ e.text.length := by
      match e with
      | .literal c | .directive c | .date none => exact Nat.le_refl _
      | .date (some fmt) =>
        simp only [Element.rounds, Element.text, List.length_append, List.length_cons]
        omega
    rw [List.map_cons, List.sum_cons, texts, List.flatMap_cons, List.length_append]
    exact Nat.add_le_add he ih

/-! ### The end of the pattern -/

/-- What the loop makes of the tail. -/
def Tail.ending (s : Scan) : Tail → Ending Scan
  | nothing => .ended s
  | percent => .ended { s with patterns := s.patterns ++ flush s.tmp, tmp := [], parsing_string := false, i := s.i + 1 }
  | bareDate => .outside
  | openDate _ => .failed

/-- At the end of the pattern the scan ends. -/
theorem scan_end (hi : p.length ≤ s.i) (fuel : Nat) : scan p (fuel + 1) s = .ended s := by
  rw [scan, List.getElem?_eq_none hi]

/-- A tail ends the scan. -/
theorem scan_tail {tail : Tail} (hp : p = pre ++ tail.text) (htail : tail.Valid) (hi : s.i = pre.length)
    (hstring : s.parsing_string = true) (fuel : Nat) : scan p (tail.text.length + fuel + 1) s = tail.ending s := by
  cases tail with
  | nothing => exact scan_end (by rw [hp, hi]; simp [Tail.text]) _
  | percent =>
    have hend : p.length ≤ s.i + 1 := by rw [hp, hi]; simp [Tail.text]
    rw [show Tail.percent.text.length + fuel + 1 = fuel + 1 + 1 by simp [Tail.text]; omega, scan_percent hp hi hstring]
    exact scan_end hend fuel
  | bareDate =>
    have hlen : p.length = s.i + 2 := by rw [hp, hi]; simp [Tail.text]
    have hread : p[s.i + 2]? = none := List.getElem?_eq_none (by omega)
    have hdrop : p.drop (s.i + 2 + 1) = [] := List.drop_eq_nil_of_le (by omega)
    have houtside : charAt p (s.i + 2 + 1) = none := by
      rw [charAt, if_neg (by omega), List.getElem?_eq_none (by omega)]
    rw [show Tail.bareDate.text.length + fuel + 1 = fuel + 1 + 2 by simp [Tail.text]; omega,
      scan_date hp hi hstring rfl, readDate, if_neg]
    · simp only [hdrop, readFormat, houtside]
      rfl
    · simp [hread]
  | openDate fmt =>
    have hp' : p = pre ++ 37 :: 100 :: 123 :: fmt := by rw [hp]; simp [Tail.text]
    have hread : p[s.i + 2]? = some 123 := by rw [hp', hi]; simp
    have hdrop : p.drop (s.i + 2 + 1) = fmt := by rw [hp', hi, drop_open]
    have hend : charAt p (s.i + 2 + 1 + fmt.length) = some 0 := by
      rw [charAt, if_pos]
      rw [hp', hi]
      simp
      omega
    rw [show (Tail.openDate fmt).text.length + fuel + 1 = fuel + (fmt.length + 2) + 2 by simp [Tail.text]; omega,
      scan_date hp' hi hstring rfl, readDate, if_neg]
    · simp only [hdrop, (readFormat_eq htail [] _ _).2, hend]
      rfl
    · simp [hread]

/-- **What the loop makes of a pattern.** -/
theorem scan_pattern {es : List Element} {tail : Tail} (hes : Valid es tail.text) (htail : tail.Valid) :
    scan (texts es ++ tail.text) ((texts es ++ tail.text).length + 1) .start =
      tail.ending (es.foldl Scan.after .start) := by
  have hrounds := rounds_le es
  have hp : texts es ++ tail.text = [] ++ texts es ++ tail.text := rfl
  have hstart : Scan.start.i = ([] : Bytes).length := rfl
  obtain ⟨hscan, hi, hstring⟩ := scan_elements hp hes hstart rfl
    (tail.text.length + ((texts es).length - (es.map Element.rounds).sum) + 1)
  have hfuel : (texts es ++ tail.text).length + 1 = tail.text.length +
      ((texts es).length - (es.map Element.rounds).sum) + 1 + (es.map Element.rounds).sum := by
    rw [List.length_append]
    omega
  rw [hfuel, hscan]
  exact scan_tail rfl htail hi hstring _

/-- The pattern ends in a `%d` with nothing behind it. -/
def EndsInBareDate (p : Bytes) : Prop := ∃ es, Valid es [37, 100] ∧ p = texts es ++ [37, 100]

/-- A bare `%d` at the end leads outside the pattern. -/
theorem init_outside {p : Bytes} (h : EndsInBareDate p) : init p = .outside := by
  obtain ⟨es, hes, rfl⟩ := h
  have hscan : scan (texts es ++ [37, 100]) ((texts es ++ [37, 100]).length + 1) .start = .outside :=
    scan_pattern (show Valid es Tail.bareDate.text from hes) trivial
  rw [init, hscan]

/-- **`init` terminates**, and stays within the pattern and its terminator exactly when the pattern does not end in
a `%d` with nothing behind it. -/
theorem init_ended_iff (p : Bytes) :
    init p ≠ .running ∧ ((∃ f, init p = .ended f) ↔ ¬ EndsInBareDate p) := by
  by_cases hbare : EndsInBareDate p
  · rw [init_outside hbare]
    exact ⟨nofun, iff_of_false nofun (not_not_intro hbare)⟩
  · obtain ⟨f, hf⟩ : ∃ f, init p = .ended f := by
      obtain ⟨es, tail, hes, htail, rfl⟩ := exists_elements p
      rw [init, scan_pattern hes htail]
      cases tail with
      | bareDate => exact (hbare ⟨es, hes, rfl⟩).elim
      | nothing | percent | openDate fmt => exact ⟨_, rfl⟩
    rw [hf]
    exact ⟨nofun, iff_of_true ⟨f, rfl⟩ hbare⟩

/-- A pattern ends in a bare date just when `init` reads past it. -/
theorem endsInBareDate_iff (p : Bytes) : EndsInBareDate p ↔ init p = .outside := by
  refine ⟨init_outside, fun h => Classical.byContradiction fun hbare => ?_⟩
  obtain ⟨f, hf⟩ := (init_ended_iff p).2.mpr hbare
  cases h.symm.trans hf

/-- Whether a pattern ends so can be computed. -/
instance (p : Bytes) : Decidable (EndsInBareDate p) := decidable_of_iff _ (endsInBareDate_iff p).symm

/-- The formatter keeps its pattern. -/
theorem init_pattern {p : Bytes} {f : LogFormatter} (h : init p = .ended f) : f.m_pattern = p := by
  unfold init at h
  split at h
  · cases h
  · cases h
  · obtain rfl := Ending.ended.inj h
    rfl
  · obtain rfl := Ending.ended.inj h
    rfl

/-- **A `%d` at the end** is read past: the two bytes have their terminator at 2, and `init` reads at 3. -/
theorem bare_date_outside : init (str "%d") = .outside ∧ init (str "[%p] %d") = .outside ∧
    readDate (str "%d") ⟨[.template 100], [], [], true, 2⟩ = .outside ∧ charAt (str "%d") 3 = none := by
  decide

end LogFormatter
end Log
end Wuchat
