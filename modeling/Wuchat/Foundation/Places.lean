/-
# Lists of which one element changes

The threads of a program are a list of their states here, and a step of one of them sets one
element.  What a function picks out of the list changes with that element only, up to the
order (`filterMap_set`), and so do the number of elements with a property
(`countP_set_add`) and a sum over the list (`sum_map_set`); an element after the step is the new one
or stood elsewhere before (`mem_set_cases`).
-/

import Mathlib.Algebra.GroupWithZero.Nat
import Mathlib.Data.List.Perm.Basic

namespace Wuchat
namespace Foundation

variable {α β : Type*} {xs : List α} {x y : α} {i j : Nat}

/-- The list around one element, before and after it changes. -/
theorem set_split (h : xs[i]? = some x) :
    ∃ pre post, xs = pre ++ x :: post ∧ ∀ y, xs.set i y = pre ++ y :: post := by
  obtain ⟨hlt, rfl⟩ := List.getElem?_eq_some_iff.1 h
  have hset : ∀ y, xs.set i y = xs.take i ++ y :: xs.drop (i + 1) := fun y => by
    rw [List.set_eq_take_append_cons_drop, if_pos hlt]
  exact ⟨xs.take i, xs.drop (i + 1), by rw [← hset, List.set_getElem_self], hset⟩

/-- **What a function picks out of the list**, before and after one element changes. -/
theorem filterMap_set (g : α → Option β) (h : xs[i]? = some x) :
    ∃ rest, (xs.filterMap g).Perm ((g x).toList ++ rest) ∧
      ∀ y, ((xs.set i y).filterMap g).Perm ((g y).toList ++ rest) := by
  obtain ⟨pre, post, hxs, hset⟩ := set_split h
  have hmid : ∀ y, ((pre ++ y :: post).filterMap g).Perm
      ((g y).toList ++ (pre.filterMap g ++ post.filterMap g)) := by
    intro y
    rw [List.filterMap_append, List.filterMap_cons]
    cases g y with
    | none => exact .refl _
    | some b => exact List.perm_middle
  refine ⟨pre.filterMap g ++ post.filterMap g, ?_, fun y => ?_⟩
  · rw [hxs]
    exact hmid x
  · rw [hset]
    exact hmid y

/-- An element that a function maps as before. -/
theorem filterMap_set_eq (g : α → Option β) (h : xs[i]? = some x) (hy : g y = g x) :
    (xs.set i y).filterMap g = xs.filterMap g := by
  obtain ⟨pre, post, hxs, hset⟩ := set_split h
  rw [hset, hxs, List.filterMap_append, List.filterMap_append, List.filterMap_cons,
    List.filterMap_cons, hy]

/-- An element of the list after one has changed. -/
theorem mem_set_cases (hy : y ∈ xs.set i x) : y = x ∨ ∃ j, j ≠ i ∧ xs[j]? = some y := by
  obtain ⟨j, hj⟩ := List.mem_iff_getElem?.1 hy
  rw [List.getElem?_set] at hj
  split at hj
  · split at hj
    · exact .inl (Option.some.inj hj).symm
    · cases hj
  · rename_i hne
    exact .inr ⟨j, Ne.symm hne, hj⟩

/-- What a function picks out of the list is picked from one place, if the list it picks has no
duplicates. -/
theorem eq_of_filterMap_nodup {g : α → Option β} {b : β} (h : (xs.filterMap g).Nodup)
    (hi : xs[i]? = some x)
    (hj : xs[j]? = some y) (hx : g x = some b) (hy : g y = some b) : i = j := by
  have hpair := List.pairwise_filterMap.1 h
  rw [List.pairwise_iff_getElem] at hpair
  obtain ⟨hilt, rfl⟩ := List.getElem?_eq_some_iff.1 hi
  obtain ⟨hjlt, rfl⟩ := List.getElem?_eq_some_iff.1 hj
  rcases Nat.lt_trichotomy i j with hlt | heq | hgt
  · exact absurd rfl (hpair i j hilt hjlt hlt b hx b hy)
  · exact heq
  · exact absurd rfl (hpair j i hjlt hilt hgt b hy b hx)

/-- An element with a property stays, or the one that changes keeps it. -/
theorem exists_mem_set {P : α → Prop} (h : xs[i]? = some x) (hex : ∃ z ∈ xs, P z)
    (hkeep : P x → P y) :
    ∃ z ∈ xs.set i y, P z := by
  obtain ⟨z, hz, hP⟩ := hex
  obtain ⟨j, hj⟩ := List.mem_iff_getElem?.1 hz
  have hlt := (List.getElem?_eq_some_iff.1 h).1
  by_cases hij : i = j
  · subst hij
    obtain rfl := Option.some.inj (h.symm.trans hj)
    exact ⟨y, List.mem_of_getElem? (List.getElem?_set_self hlt), hkeep hP⟩
  · exact ⟨z, List.mem_of_getElem? ((List.getElem?_set_ne hij).trans hj), hP⟩

/-- A property of all elements, when one of them changes. -/
theorem forall_mem_set {P : α → Prop} (h : ∀ z ∈ xs, P z) (hy : P y) : ∀ z ∈ xs.set i y, P z := by
  intro z hz
  rcases mem_set_cases hz with rfl | ⟨j, -, hj⟩
  · exact hy
  · exact h z (List.mem_of_getElem? hj)

/-- How many elements have a property changes with the one that changes. -/
theorem countP_set_add (p : α → Bool) (h : xs[i]? = some x) (y : α) :
    (xs.set i y).countP p + (if p x then 1 else 0) = xs.countP p + if p y then 1 else 0 := by
  obtain ⟨pre, post, hxs, hset⟩ := set_split h
  rw [hset, hxs, List.countP_append, List.countP_append, List.countP_cons, List.countP_cons]
  omega

/-- A sum over the list changes with the element that changes. -/
theorem sum_map_set (f : α → Nat) (h : xs[i]? = some x) (y : α) :
    ((xs.set i y).map f).sum + f x = (xs.map f).sum + f y := by
  obtain ⟨pre, post, hxs, hset⟩ := set_split h
  rw [hset, hxs, List.map_append, List.map_append, List.map_cons, List.map_cons, List.sum_append, List.sum_append,
    List.sum_cons, List.sum_cons]
  omega

/-- A sum that is zero has only zeros. -/
theorem eq_zero_of_sum_map {f : α → Nat} (h : (xs.map f).sum = 0) : ∀ x ∈ xs, f x = 0 := by
  induction xs with
  | nil => exact nofun
  | cons y ys ih =>
    rw [List.map_cons, List.sum_cons] at h
    rw [List.forall_mem_cons]
    exact ⟨by omega, ih (by omega)⟩

/-- **A sum that is one** has a single one. -/
theorem exists_one_of_sum_map {f : α → Nat} (h : (xs.map f).sum = 1) :
    ∃ (i : Nat) (x : α), xs[i]? = some x ∧ f x = 1 ∧ ∀ (j : Nat) (y : α), xs[j]? = some y → j ≠ i → f y = 0 := by
  induction xs with
  | nil => cases h
  | cons z zs ih =>
    rw [List.map_cons, List.sum_cons] at h
    rcases Nat.eq_zero_or_pos (f z) with hz | hz
    · obtain ⟨i, x, hi, hx, hothers⟩ := ih (by omega)
      refine ⟨i + 1, x, hi, hx, fun j y hj hne => ?_⟩
      cases j with
      | zero =>
        obtain rfl := Option.some.inj hj
        exact hz
      | succ j => exact hothers j y hj fun heq => hne (congrArg Nat.succ heq)
    · have hrest : (zs.map f).sum = 0 := by omega
      refine ⟨0, z, rfl, by omega, fun j y hj hne => ?_⟩
      cases j with
      | zero => exact absurd rfl hne
      | succ j => exact eq_zero_of_sum_map hrest y (List.mem_of_getElem? hj)

end Foundation
end Wuchat
