/-
# What a history of changes leaves

A component that is only ever changed by small operations is, at any time, what
the operations so far have made of it.  Three kinds of state are told here from
the history alone: a variable that some operations assign (`foldl_assign`), a map
whose entries are set and erased one at a time (`find_foldl_change`), and a list of
registrations in which a key is taken out when it is registered again or removed
(`foldl_register`).

`latest about h` is what the last operation of `h` that has something to say says.
`live h` is the list of the registrations of `h` that no later change of their key
has ended, in the order they were made.
-/

import Wuchat.Foundation.OrdMap
import Mathlib.Data.List.Induction

namespace Wuchat
namespace Foundation

section Latest

variable {ε β σ : Type*} {about : ε → Option β}

/-- What the last change of a history that says anything says. -/
def latest (about : ε → Option β) (h : List ε) : Option β := (h.filterMap about).getLast?

/-- Nothing has been said yet. -/
@[simp] theorem latest_nil : latest about [] = none := rfl

/-- The last entry about it counts. -/
@[simp] theorem latest_snoc (h : List ε) (e : ε) : latest about (h ++ [e]) = (about e).or (latest about h) := by
  unfold latest
  cases he : about e <;> simp [he]

/-- **A variable holds what was assigned to it last.** -/
theorem foldl_assign {step : σ → ε → σ} {g : σ → β} (hstep : ∀ s e, g (step s e) = (about e).getD (g s))
    (h : List ε) (s : σ) : g (h.foldl step s) = (latest about h).getD (g s) := by
  induction h using List.reverseRecOn with
  | nil => rfl
  | append_singleton h e ih =>
    rw [List.foldl_append, List.foldl_cons, List.foldl_nil, hstep, ih, latest_snoc]
    cases about e <;> rfl

end Latest

/-! ### Maps -/

namespace OrdMap

variable {κ κ' ν : Type*} {lt : κ → κ → Bool} {key : κ → κ'}

/-- One change of a map: an entry is set, or erased. -/
def change (lt : κ → κ → Bool) (m : OrdMap κ ν) (e : κ × Option ν) : OrdMap κ ν :=
  match e.2 with
  | some v => set lt e.1 v m
  | none => erase lt e.1 m

/-- What a change says of a key. -/
def changes [DecidableEq κ'] (key : κ → κ') (k : κ) (e : κ × Option ν) : Option (Option ν) :=
  if key k = key e.1 then some e.2 else none

/-- What a key finds behind one change. -/
theorem find_change [DecidableEq κ'] (hk : KeyedBy lt key) (k : κ) (m : OrdMap κ ν) (e : κ × Option ν) :
    find lt k (change lt m e) = (changes key k e).getD (find lt k m) := by
  obtain ⟨k', o⟩ := e
  unfold change changes
  by_cases h : key k = key k'
  · rw [if_pos h]
    cases o with
    | some v => exact find_set_self hk h v m
    | none => exact find_erase_self hk h m
  · rw [if_neg h]
    cases o with
    | some v => exact find_set_of_ne hk h v m
    | none => exact find_erase_of_ne hk h m

/-- **A lookup finds what the last change of its key left there.** -/
theorem find_foldl_change [DecidableEq κ'] (hk : KeyedBy lt key) (k : κ) (h : List (κ × Option ν))
    (m : OrdMap κ ν) :
    find lt k (h.foldl (change lt) m) = (latest (changes key k) h).getD (find lt k m) :=
  foldl_assign (g := find lt k) (find_change hk k) h m

end OrdMap

/-! ### Registrations in order -/

section Registrations

variable {κ ν : Type*} [DecidableEq κ]

/-- Take the first entry of a key out of a list. -/
def dropKey (k : κ) (l : List (κ × ν)) : List (κ × ν) := l.eraseP fun e => e.1 = k

/-- One change of a list of registrations: the entry of the key goes, and a new one comes last. -/
def register (l : List (κ × ν)) (e : κ × Option ν) : List (κ × ν) :=
  dropKey e.1 l ++ (e.2.map (e.1, ·)).toList

/-- The registrations of a history that no later change of their key has ended, oldest first. -/
def live : List (κ × Option ν) → List (κ × ν)
  | [] => []
  | e :: h => (if ∃ e' ∈ h, e'.1 = e.1 then [] else (e.2.map (e.1, ·)).toList) ++ live h

/-- Nothing is registered yet. -/
@[simp] theorem live_nil : live ([] : List (κ × Option ν)) = [] := rfl

/-- What is registered was registered once. -/
theorem fst_mem_of_mem_live {h : List (κ × Option ν)} {x : κ × ν} (hx : x ∈ live h) : ∃ e ∈ h, e.1 = x.1 := by
  induction h with
  | nil => cases hx
  | cons e h ih =>
    rcases List.mem_append.mp hx with hx | hx
    · refine ⟨e, List.mem_cons_self, ?_⟩
      split at hx
      · cases hx
      · obtain ⟨v, -, rfl⟩ := Option.map_eq_some_iff.mp (Option.mem_toList.mp hx)
        rfl
    · obtain ⟨e', he', hkey⟩ := ih hx
      exact ⟨e', List.mem_cons_of_mem _ he', hkey⟩

/-- A later change ends the registrations of its key, and no others. -/
theorem live_snoc (h : List (κ × Option ν)) (e : κ × Option ν) :
    live (h ++ [e]) = (live h).filter (·.1 ≠ e.1) ++ (e.2.map (e.1, ·)).toList := by
  induction h with
  | nil => simp [live]
  | cons e₀ h ih =>
    rw [List.cons_append, live, live, ih, List.filter_append, List.append_assoc]
    congr 1
    by_cases hlater : ∃ e' ∈ h, e'.1 = e₀.1
    · have : ∃ e' ∈ h ++ [e], e'.1 = e₀.1 := by
        obtain ⟨e', he', hkey⟩ := hlater
        exact ⟨e', List.mem_append_left _ he', hkey⟩
      rw [if_pos this, if_pos hlater, List.filter_nil]
    · by_cases hkey : e.1 = e₀.1
      · have : ∃ e' ∈ h ++ [e], e'.1 = e₀.1 := ⟨e, by simp, hkey⟩
        rw [if_pos this, if_neg hlater]
        cases e₀.2 <;> simp [hkey]
      · have : ¬ ∃ e' ∈ h ++ [e], e'.1 = e₀.1 := by
          simpa [or_imp, forall_and, hkey] using hlater
        rw [if_neg this, if_neg hlater]
        cases e₀.2 <;> simp [Ne.symm hkey]

/-- Of one key there is one live registration at most. -/
theorem live_nodup (h : List (κ × Option ν)) : (live h).Pairwise fun x y => x.1 ≠ y.1 := by
  induction h with
  | nil => exact .nil
  | cons e h ih =>
    rw [live]
    split
    · exact ih
    · rename_i hlater
      cases he : e.2 with
      | none => exact ih
      | some v =>
        refine List.pairwise_cons.mpr ⟨fun x hx hkey => hlater ?_, ih⟩
        obtain ⟨e', he', hkey'⟩ := fst_mem_of_mem_live hx
        exact ⟨e', he', hkey'.trans hkey.symm⟩

/-- Where no two entries have one key, dropping the first of a key drops all of them. -/
theorem dropKey_eq_filter {l : List (κ × ν)} (h : l.Pairwise fun x y => x.1 ≠ y.1) (k : κ) :
    dropKey k l = l.filter (·.1 ≠ k) := by
  induction l with
  | nil => rfl
  | cons x l ih =>
    obtain ⟨hx, hl⟩ := List.pairwise_cons.mp h
    by_cases hkey : x.1 = k
    · have hall : l.filter (·.1 ≠ k) = l := by
        refine List.filter_eq_self.mpr fun y hy => ?_
        simpa [hkey] using (hx y hy).symm
      rw [dropKey, List.eraseP_cons_of_pos (by simpa using hkey), List.filter_cons_of_neg (by simpa using hkey), hall]
    · rw [dropKey, List.eraseP_cons_of_neg (by simpa using hkey), List.filter_cons_of_pos (by simpa using hkey),
        ← dropKey, ih hl]

/-- **The registrations that a history leaves** are its live ones, in the order they were made. -/
theorem foldl_register (h : List (κ × Option ν)) : h.foldl register [] = live h := by
  induction h using List.reverseRecOn with
  | nil => rfl
  | append_singleton h e ih =>
    rw [List.foldl_append, List.foldl_cons, List.foldl_nil, ih, register, live_snoc,
      dropKey_eq_filter (live_nodup h)]

/-- **A live registration** is the last word on its key. -/
theorem mem_live_iff {h : List (κ × Option ν)} {k : κ} {v : ν} :
    (k, v) ∈ live h ↔ latest (OrdMap.changes id k) h = some (some v) := by
  induction h using List.reverseRecOn with
  | nil => simp
  | append_singleton h e ih =>
    obtain ⟨k', o⟩ := e
    rw [live_snoc, latest_snoc, List.mem_append, List.mem_filter, ih]
    by_cases hkey : k = k'
    · subst hkey
      cases o <;> simp [OrdMap.changes, eq_comm]
    · cases o <;> simp [OrdMap.changes, hkey]

end Registrations

end Foundation
end Wuchat
