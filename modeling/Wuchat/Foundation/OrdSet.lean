/-
# Ordered sets whose elements carry their keys

`std::set<T, Less>` as the list of its elements in the order of `Less`, for elements whose
place is decided by a key that lies in the element and may be written from outside.  The
searches go as far as the keys are below the one that is looked for, as the searches of the
tree do; they find what is there only while the list is in order (`Sorted`).

The order is about the keys the elements have now: `Sorted.congr` says what a write to a key
may not touch.
-/

import Mathlib.Order.Lattice
import Mathlib.Data.List.Pairwise
import Mathlib.Data.List.Nodup
import Mathlib.Data.List.TakeWhile

namespace Wuchat
namespace Foundation
namespace OrdSet

variable {α κ : Type*} [LinearOrder κ]

/-- `s.find(k)`. -/
def find (key : α → κ) (k : κ) : List α → Option α
  | [] => none
  | a :: s => if key a < k then find key k s else if k < key a then none else some a

/-- `s.insert(a)`; an element with the same key stays instead. -/
def insert (key : α → κ) (a : α) : List α → List α
  | [] => [a]
  | b :: s => if key b < key a then b :: insert key a s else if key a < key b then a :: b :: s else b :: s

/-- `s.erase(k)`. -/
def erase (key : α → κ) (k : κ) : List α → List α
  | [] => []
  | a :: s => if key a < k then a :: erase key k s else if k < key a then a :: s else s

/-- The elements from `s.begin()` to `s.upper_bound(k)`. -/
def upTo (key : α → κ) (k : κ) (s : List α) : List α := s.takeWhile fun a => decide (¬ k < key a)

/-- The elements are strictly in order. -/
def Sorted (key : α → κ) (s : List α) : Prop := s.Pairwise fun a b => key a < key b

variable {key key' : α → κ} {k : κ} {a b c : α} {s : List α}

/-- A sorted list has no element twice. -/
theorem Sorted.nodup (h : Sorted key s) : s.Nodup := by
  refine List.Pairwise.imp ?_ h
  rintro a b hlt rfl
  exact lt_irrefl _ hlt

/-- **The order stays** when no key of the set changes. -/
theorem Sorted.congr (h : Sorted key s) (hkey : ∀ a ∈ s, key' a = key a) : Sorted key' s := by
  refine List.Pairwise.imp_of_mem ?_ h
  intro a b ha hb hlt
  rwa [hkey a ha, hkey b hb]

/-- Elements with one key are one element. -/
theorem Sorted.eq_of_key_eq (h : Sorted key s) (ha : a ∈ s) (hb : b ∈ s) (heq : key a = key b) : a = b := by
  induction s with
  | nil => cases ha
  | cons c s ih =>
    obtain ⟨hc, hs⟩ := List.pairwise_cons.1 h
    rcases List.mem_cons.1 ha with rfl | ha'
    · rcases List.mem_cons.1 hb with rfl | hb'
      · rfl
      · exact absurd (hc b hb') (heq ▸ lt_irrefl _)
    · rcases List.mem_cons.1 hb with rfl | hb'
      · exact absurd (hc a ha') (heq ▸ lt_irrefl _)
      · exact ih hs ha' hb'

/-! ### `find` -/

/-- What is found is there. -/
theorem of_find (h : find key k s = some a) : a ∈ s ∧ key a = k := by
  induction s with
  | nil => cases h
  | cons b s ih =>
    rw [find] at h
    split at h
    · obtain ⟨hmem, hkey⟩ := ih h
      exact ⟨List.mem_cons_of_mem _ hmem, hkey⟩
    · split at h
      · cases h
      · rename_i h₁ h₂
        obtain rfl := Option.some.inj h
        exact ⟨List.mem_cons_self, le_antisymm (not_lt.1 h₂) (not_lt.1 h₁)⟩

/-- **What is in the set is found**, while the set is in order. -/
theorem Sorted.find_of_mem (h : Sorted key s) (ha : a ∈ s) : find key (key a) s = some a := by
  induction s with
  | nil => cases ha
  | cons b s ih =>
    obtain ⟨hb, hs⟩ := List.pairwise_cons.1 h
    rw [find]
    rcases List.mem_cons.1 ha with rfl | ha
    · rw [if_neg (lt_irrefl _), if_neg (lt_irrefl _)]
    · rw [if_pos (hb a ha), ih hs ha]

/-- What is not in the set is not found, when its key is its own. -/
theorem find_eq_none (h : ∀ b ∈ s, key b ≠ k) : find key k s = none := by
  cases hf : find key k s with
  | none => rfl
  | some b => exact absurd (of_find hf).2 (h b (of_find hf).1)

/-! ### `insert` -/

/-- What is in the set was inserted or was there. -/
theorem mem_insert_of_mem (h : c ∈ insert key a s) : c = a ∨ c ∈ s := by
  induction s with
  | nil => exact .inl (List.mem_singleton.1 h)
  | cons b s ih =>
    rw [insert] at h
    split at h
    · rcases List.mem_cons.1 h with rfl | h
      · exact .inr List.mem_cons_self
      · exact (ih h).imp id (List.mem_cons_of_mem _)
    · split at h
      · exact List.mem_cons.1 h
      · exact .inr h

/-- **The elements after `insert`**, of an element whose key is its own. -/
theorem mem_insert (h : ∀ b ∈ s, key b = key a → b = a) : c ∈ insert key a s ↔ c = a ∨ c ∈ s := by
  refine ⟨mem_insert_of_mem, ?_⟩
  induction s with
  | nil =>
    rintro (rfl | hc)
    · exact List.mem_singleton_self c
    · cases hc
  | cons b s ih =>
    intro hc
    rw [insert]
    split
    · rcases hc with rfl | hc
      · exact List.mem_cons_of_mem _ (ih (fun d hd => h d (List.mem_cons_of_mem _ hd)) (.inl rfl))
      · rcases List.mem_cons.1 hc with rfl | hc
        · exact List.mem_cons_self
        · exact List.mem_cons_of_mem _ (ih (fun d hd => h d (List.mem_cons_of_mem _ hd)) (.inr hc))
    · split
      · exact List.mem_cons.2 hc
      · rename_i h₁ h₂
        have hba : b = a := h b List.mem_cons_self (le_antisymm (not_lt.1 h₂) (not_lt.1 h₁))
        rcases hc with rfl | hc
        · exact hba ▸ List.mem_cons_self
        · exact hc

/-- An insertion leaves it sorted. -/
theorem Sorted.insert (h : Sorted key s) : Sorted key (insert key a s) := by
  induction s with
  | nil => exact List.pairwise_singleton _ _
  | cons b s ih =>
    obtain ⟨hb, hs⟩ := List.pairwise_cons.1 h
    rw [OrdSet.insert]
    split
    · rename_i hlt
      refine List.pairwise_cons.2 ⟨?_, ih hs⟩
      intro c hc
      rcases mem_insert_of_mem hc with rfl | hc
      · exact hlt
      · exact hb c hc
    · split
      · rename_i hlt
        refine List.pairwise_cons.2 ⟨?_, h⟩
        intro c hc
        rcases List.mem_cons.1 hc with rfl | hc
        · exact hlt
        · exact lt_trans hlt (hb c hc)
      · exact h

/-! ### `erase` -/

/-- **`erase` of an element** takes that element out. -/
theorem Sorted.erase_eq [DecidableEq α] (h : Sorted key s) (ha : a ∈ s) : OrdSet.erase key (key a) s = s.erase a := by
  induction s with
  | nil => cases ha
  | cons b s ih =>
    obtain ⟨hb, hs⟩ := List.pairwise_cons.1 h
    rw [OrdSet.erase]
    rcases List.mem_cons.1 ha with rfl | ha'
    · rw [if_neg (lt_irrefl _), if_neg (lt_irrefl _), List.erase_cons_head]
    · have hne : b ≠ a := by
        rintro rfl
        exact lt_irrefl _ (hb b ha')
      rw [if_pos (hb a ha'), ih hs ha', List.erase_cons_tail (by simpa using hne)]

/-! ### `upper_bound` -/

/-- What comes up to a key has a key up to it. -/
theorem mem_upTo (h : a ∈ upTo key k s) : a ∈ s ∧ key a ≤ k := by
  have hle := List.mem_takeWhile_imp h
  exact ⟨(List.takeWhile_sublist _).subset h, not_lt.1 (of_decide_eq_true hle)⟩

/-- **The elements up to a key** are those of the set whose keys are not above it. -/
theorem Sorted.mem_upTo_iff (h : Sorted key s) : a ∈ upTo key k s ↔ a ∈ s ∧ key a ≤ k := by
  refine ⟨mem_upTo, ?_⟩
  rintro ⟨ha, hle⟩
  induction s with
  | nil => cases ha
  | cons b s ih =>
    obtain ⟨hb, hs⟩ := List.pairwise_cons.1 h
    have hbk : key b ≤ k := by
      rcases List.mem_cons.1 ha with rfl | ha
      · exact hle
      · exact le_trans (le_of_lt (hb a ha)) hle
    rw [upTo, List.takeWhile_cons, if_pos (decide_eq_true (not_lt.2 hbk))]
    rcases List.mem_cons.1 ha with rfl | ha
    · exact List.mem_cons_self
    · exact List.mem_cons_of_mem _ (ih hs ha)

/-- It is sorted. -/
theorem Sorted.sorted_upTo (h : Sorted key s) : Sorted key (upTo key k s) :=
  List.Pairwise.sublist (List.takeWhile_sublist _) h

/-- And has no element twice. -/
theorem Sorted.nodup_upTo (h : Sorted key s) : (upTo key k s).Nodup :=
  h.nodup.sublist (List.takeWhile_sublist _)

end OrdSet
end Foundation
end Wuchat
