/-
# Paths and their normal form

A path is cut into components at `/`.  Empty components and `.` stand for nothing, and `..`
takes away the component before it; what is left is the normal form (`normal`), the names
from the start of the path to the file.

A path whose components are not `..` only goes down: its normal form is the list of its names
(`foldl_enter`), and a path that goes on from another one stays below it
(`normal_prefix_append`).
-/

import Mathlib.Data.List.Infix
import Wuchat.Foundation.CString

namespace Wuchat
namespace Foundation

/-- `s.find(pat)`: where `pat` first occurs. -/
def find (pat : Bytes) : Bytes → Option Nat
  | [] => if pat = [] then some 0 else none
  | c :: s => if pat <+: c :: s then some 0 else (find pat s).map (· + 1)

/-- A pattern is not found when it is nowhere. -/
theorem find_eq_none_iff {pat : Bytes} : ∀ {s : Bytes}, find pat s = none ↔ ¬ pat <:+: s
  | [] => by simp [find]
  | c :: s => by
    rw [find, List.infix_cons_iff, not_or]
    split
    · rename_i hpre
      exact iff_of_false nofun fun h => h.1 hpre
    · rename_i hpre
      rw [Option.map_eq_none_iff, find_eq_none_iff, and_iff_right hpre]

/-! ### Components -/

/-- The components of a path. -/
def components (p : Bytes) : List Bytes := p.splitOn 47

/-- The components of two paths joined. -/
theorem components_append (a b : Bytes) : components (a ++ 47 :: b) = components a ++ components b :=
  List.splitOn_append_cons_self a b

/-- The first component begins the path, and the others are in it. -/
theorem components_eq (p : Bytes) : ∃ c cs, components p = c :: cs ∧ c <+: p ∧ ∀ d ∈ cs, d <:+: p := by
  induction p with
  | nil => exact ⟨[], [], rfl, List.nil_prefix, fun d hd => absurd hd List.not_mem_nil⟩
  | cons x p ih =>
    obtain ⟨c, cs, hcs, hc, hall⟩ := ih
    have hin : ∀ d ∈ cs, d <:+: x :: p := fun d hd => List.infix_cons (hall d hd)
    rw [components, List.splitOn_cons_eq_if_modifyHead]
    split
    · refine ⟨[], c :: cs, by rw [← hcs]; rfl, List.nil_prefix, fun d hd => ?_⟩
      rcases List.mem_cons.mp hd with rfl | hd
      · exact List.infix_cons hc.isInfix
      · exact hin d hd
    · have hsplit : (p.splitOn 47).modifyHead (List.cons x) = (x :: c) :: cs := by
        rw [show p.splitOn 47 = c :: cs from hcs]
        rfl
      exact ⟨x :: c, cs, hsplit, List.cons_prefix_cons.mpr ⟨rfl, hc⟩, hin⟩

/-- A component is a piece of its path. -/
theorem infix_of_mem_components {p c : Bytes} (h : c ∈ components p) : c <:+: p := by
  obtain ⟨d, ds, heq, hd, hds⟩ := components_eq p
  rw [heq] at h
  rcases List.mem_cons.mp h with rfl | h
  · exact hd.isInfix
  · exact hds c h

/-! ### The normal form -/

/-- Where a component leads to from the end of the names `dirs`. -/
def enter (dirs : List Bytes) (c : Bytes) : List Bytes :=
  if c = [] ∨ c = str "." then dirs else if c = str ".." then dirs.dropLast else dirs ++ [c]

/-- The normal form of a path. -/
def normal (p : Bytes) : List Bytes := (components p).foldl enter []

/-- A component that is a name. -/
def isName (c : Bytes) : Bool := !(c = [] ∨ c = str "." ∨ c = str "..")

/-- **Without `..` a path only goes down.** -/
theorem foldl_enter {cs : List Bytes} (h : str ".." ∉ cs) (dirs : List Bytes) :
    cs.foldl enter dirs = dirs ++ cs.filter isName := by
  induction cs generalizing dirs with
  | nil => exact (List.append_nil dirs).symm
  | cons c cs ih =>
    obtain ⟨hne, hcs⟩ := not_or.mp (mt List.mem_cons.mpr h)
    rw [List.foldl_cons, ih hcs, enter]
    by_cases hskip : c = [] ∨ c = str "."
    · have hname : isName c = false := by
        rw [isName, decide_eq_true (or_assoc.mp (.inl hskip))]
        rfl
      rw [if_pos hskip, List.filter_cons_of_neg (by rw [hname]; exact Bool.false_ne_true)]
    · have hname : isName c = true := by
        rw [isName, decide_eq_false fun hor => (or_assoc.mpr hor).elim hskip (Ne.symm hne)]
        rfl
      rw [if_neg hskip, if_neg (Ne.symm hne), List.filter_cons_of_pos hname, List.append_assoc, List.singleton_append]

/-- **What goes on from a path without `..` stays below it.** -/
theorem normal_prefix_append (a : Bytes) {b : Bytes} (h : str ".." ∉ components b) :
    normal a <+: normal (a ++ 47 :: b) := by
  rw [normal, normal, components_append, List.foldl_append, foldl_enter h]
  exact List.prefix_append _ _

example : normal (str "/a/./b//../c") = [str "a", str "c"] := by decide

end Foundation
end Wuchat
