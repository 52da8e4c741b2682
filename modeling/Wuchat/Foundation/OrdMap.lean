/-
# Ordered maps with a comparison function

`std::map<K, V, Less>` as the list of its entries in the order of `Less`.  Two
keys are the same entry when neither is less than the other, whatever `==` says
of them, and the key an entry was created with stays: `m[k] = v` on an existing
entry replaces its value only.

The lemmas need of the comparison only that its equivalence is equality of some
image of the keys (`KeyedBy`): the identity for byte order, the case-folded text
for a case-insensitive order.
-/

import Mathlib.Tactic.TypeStar

namespace Wuchat
namespace Foundation

/-- The entries of an ordered map, in order. -/
abbrev OrdMap (κ ν : Type*) := List (κ × ν)

/-- Neither key is less than the other. -/
def eqv {κ : Type*} (lt : κ → κ → Bool) (a b : κ) : Bool := !lt a b && !lt b a

/-- The equivalence of the comparison `lt` is equality of the image `key`. -/
structure KeyedBy {κ κ' : Type*} (lt : κ → κ → Bool) (key : κ → κ') : Prop where
  eqv_iff : ∀ a b, eqv lt a b = true ↔ key a = key b

namespace OrdMap

variable {κ κ' ν : Type*} (lt : κ → κ → Bool)

/-- `m.find(k)`, as the value found. -/
def find (k : κ) : OrdMap κ ν → Option ν
  | [] => none
  | (k', v) :: m => if eqv lt k k' then some v else find k m

/-- `m[k] = v`. -/
def set (k : κ) (v : ν) : OrdMap κ ν → OrdMap κ ν
  | [] => [(k, v)]
  | (k', v') :: m =>
    if lt k k' then (k, v) :: (k', v') :: m
    else if lt k' k then (k', v') :: set k v m
    else (k', v) :: m

/-- `m.insert(std::make_pair(k, v))`: an entry with an equal key stays as it is. -/
def insert (k : κ) (v : ν) (m : OrdMap κ ν) : OrdMap κ ν :=
  match find lt k m with
  | some _ => m
  | none => set lt k v m

/-- `m.erase(k)`. -/
def erase (k : κ) (m : OrdMap κ ν) : OrdMap κ ν := m.filter fun e => !eqv lt k e.1

/-- Nothing is found in an empty map. -/
@[simp] theorem find_nil (k : κ) : find lt k ([] : OrdMap κ ν) = none := rfl

/-- The first entry with the key is found. -/
theorem find_cons (k : κ) (e : κ × ν) (m : OrdMap κ ν) :
    find lt k (e :: m) = if eqv lt k e.1 then some e.2 else find lt k m := rfl

/-- A key set in an empty map. -/
@[simp] theorem set_nil (k : κ) (v : ν) : set lt k v [] = [(k, v)] := rfl

/-- A key set before, at or behind the first entry. -/
theorem set_cons (k : κ) (v : ν) (e : κ × ν) (m : OrdMap κ ν) :
    set lt k v (e :: m) = if lt k e.1 then (k, v) :: e :: m
      else if lt e.1 k then e :: set lt k v m else (e.1, v) :: m := rfl

/-- The keys and values of a map after an assignment are its old ones and the assigned ones. -/
theorem mem_of_mem_set {lt} {k : κ} {v : ν} {m : OrdMap κ ν} {x : κ × ν} (h : x ∈ set lt k v m) :
    (x.1 = k ∨ ∃ y ∈ m, y.1 = x.1) ∧ (x.2 = v ∨ ∃ y ∈ m, y.2 = x.2) := by
  induction m with
  | nil =>
    rw [set_nil, List.mem_singleton] at h
    exact ⟨.inl (by rw [h]), .inl (by rw [h])⟩
  | cons e m ih =>
    have hold : x ∈ e :: m → (x.1 = k ∨ ∃ y ∈ e :: m, y.1 = x.1) ∧ (x.2 = v ∨ ∃ y ∈ e :: m, y.2 = x.2) :=
      fun hx => ⟨.inr ⟨x, hx, rfl⟩, .inr ⟨x, hx, rfl⟩⟩
    rw [set_cons] at h
    split at h
    · rcases List.mem_cons.mp h with rfl | h
      · exact ⟨.inl rfl, .inl rfl⟩
      · exact hold h
    · split at h
      · rcases List.mem_cons.mp h with rfl | h
        · exact hold List.mem_cons_self
        · exact (ih h).imp (Or.imp_right fun ⟨y, hy, hkey⟩ => ⟨y, List.mem_cons_of_mem _ hy, hkey⟩)
            (Or.imp_right fun ⟨y, hy, hval⟩ => ⟨y, List.mem_cons_of_mem _ hy, hval⟩)
      · rcases List.mem_cons.mp h with rfl | h
        · exact ⟨.inr ⟨e, List.mem_cons_self, rfl⟩, .inl rfl⟩
        · exact hold (List.mem_cons_of_mem _ h)

/-- **Assigning keeps the entries in order.** -/
theorem pairwise_set {lt} (htrans : ∀ a b c, lt a b = true → lt b c = true → lt a c = true) {k : κ} {v : ν}
    {m : OrdMap κ ν} (h : m.Pairwise fun a b => lt a.1 b.1 = true) :
    (set lt k v m).Pairwise fun a b => lt a.1 b.1 = true := by
  induction m with
  | nil => exact List.pairwise_singleton _ _
  | cons e m ih =>
    obtain ⟨he, hm⟩ := List.pairwise_cons.mp h
    rw [set_cons]
    split
    · rename_i hlt
      refine List.pairwise_cons.mpr ⟨List.forall_mem_cons.mpr ⟨hlt, fun x hx => ?_⟩, h⟩
      exact htrans _ _ _ hlt (he x hx)
    · split
      · rename_i hlt
        refine List.pairwise_cons.mpr ⟨fun x hx => ?_, ih hm⟩
        rcases (mem_of_mem_set hx).1 with hx | ⟨y, hy, hkey⟩
        · rw [hx]
          exact hlt
        · rw [← hkey]
          exact he y hy
      · exact List.pairwise_cons.mpr ⟨he, hm⟩

variable {lt} {key : κ → κ'} (hk : KeyedBy lt key)
include hk

/-- Looking a key up is deciding equality of images. -/
theorem eqv_eq_false {a b : κ} (h : key a ≠ key b) : eqv lt a b = false := by
  rw [← Bool.not_eq_true, hk.eqv_iff]
  exact h

/-- **An assigned key is found with its value.** -/
theorem find_set_self {k k' : κ} (h : key k' = key k) (v : ν) (m : OrdMap κ ν) :
    find lt k' (set lt k v m) = some v := by
  have hself : eqv lt k' k = true := (hk.eqv_iff k' k).2 h
  induction m with
  | nil => rw [set_nil, find_cons, if_pos hself]
  | cons e m ih =>
    rw [set_cons]
    split
    · rw [find_cons, if_pos hself]
    · split
      · rename_i _ hlt
        -- the assignment goes past an entry below it, which the lookup skips
        have hne : eqv lt k' e.1 = false := by
          refine eqv_eq_false hk fun hc => ?_
          have := (hk.eqv_iff k e.1).2 (h.symm.trans hc)
          simp [eqv, hlt] at this
        rw [find_cons, hne, if_neg Bool.false_ne_true, ih]
      · rename_i h₁ h₂
        have he : eqv lt k' e.1 = true := by
          rw [hk.eqv_iff, h]
          exact (hk.eqv_iff k e.1).1 (by simp [eqv, h₁, h₂])
        rw [find_cons, if_pos he]

/-- **Assigning one key leaves the others alone.** -/
theorem find_set_of_ne {k k' : κ} (h : key k' ≠ key k) (v : ν) (m : OrdMap κ ν) :
    find lt k' (set lt k v m) = find lt k' m := by
  have hne := eqv_eq_false hk h
  induction m with
  | nil => simp [find_cons, hne]
  | cons e m ih =>
    rw [set_cons]
    split
    · rw [find_cons, hne, if_neg Bool.false_ne_true]
    · split
      · rw [find_cons, ih, find_cons]
      · rename_i h₁ h₂
        have he : eqv lt k' e.1 = false := by
          refine eqv_eq_false hk fun hc => h (hc.trans ?_)
          exact ((hk.eqv_iff k e.1).1 (by simp [eqv, h₁, h₂])).symm
        rw [find_cons, he, if_neg Bool.false_ne_true, find_cons, he, if_neg Bool.false_ne_true]

/-- Equal keys find the same entry. -/
theorem find_congr {k k' : κ} (h : key k' = key k) (m : OrdMap κ ν) : find lt k' m = find lt k m := by
  induction m with
  | nil => rfl
  | cons e m ih =>
    have he : eqv lt k' e.1 = eqv lt k e.1 := by rw [Bool.eq_iff_iff, hk.eqv_iff, hk.eqv_iff, h]
    rw [find_cons, find_cons, he, ih]

/-- **An inserted key is found with its value unless the map had it before.** -/
theorem find_insert [DecidableEq κ'] (k k' : κ) (v : ν) (m : OrdMap κ ν) :
    find lt k' (insert lt k v m) = (find lt k' m).or (if key k' = key k then some v else none) := by
  unfold insert
  by_cases h : key k' = key k
  · rw [if_pos h, ← find_congr hk h]
    split
    · rename_i w hw
      rw [hw, Option.some_or]
    · rename_i hw
      rw [find_set_self hk h, hw, Option.none_or]
  · rw [if_neg h, Option.or_none]
    split
    · rfl
    · exact find_set_of_ne hk h v m

/-- **Of the inserted keys the first one equal to `k` is found**, unless the map had it before. -/
theorem find_foldl_insert [DecidableEq κ'] (k : κ) (es m : OrdMap κ ν) :
    find lt k (es.foldl (fun m e => insert lt e.1 e.2 m) m) =
      (find lt k m).or ((es.find? fun e => key k = key e.1).map Prod.snd) := by
  induction es generalizing m with
  | nil => rw [List.foldl_nil, List.find?_nil, Option.map_none, Option.or_none]
  | cons e es ih =>
    rw [List.foldl_cons, ih, find_insert hk, List.find?_cons, Option.or_assoc]
    by_cases h : key k = key e.1 <;> simp [h]

/-- **An erased key is not found.** -/
theorem find_erase_self {k k' : κ} (h : key k' = key k) (m : OrdMap κ ν) :
    find lt k' (erase lt k m) = none := by
  induction m with
  | nil => rfl
  | cons e m ih =>
    rw [erase, List.filter_cons]
    split
    · rename_i he
      have hne : eqv lt k' e.1 = false := by
        refine eqv_eq_false hk fun hc => ?_
        rw [(hk.eqv_iff k e.1).2 (h.symm.trans hc)] at he
        cases he
      rw [find_cons, hne, if_neg Bool.false_ne_true]
      exact ih
    · exact ih

/-- **Erasing one key leaves the others alone.** -/
theorem find_erase_of_ne {k k' : κ} (h : key k' ≠ key k) (m : OrdMap κ ν) :
    find lt k' (erase lt k m) = find lt k' m := by
  induction m with
  | nil => rfl
  | cons e m ih =>
    rw [erase, List.filter_cons]
    split
    · rw [find_cons, find_cons]
      split
      · rfl
      · exact ih
    · rename_i he
      have hke : key k = key e.1 := by
        rw [← hk.eqv_iff]
        simpa using he
      rw [find_cons, eqv_eq_false hk (hke ▸ h), if_neg Bool.false_ne_true]
      exact ih

/-- What is found stands in the map under an equal key. -/
theorem exists_mem_of_find {k : κ} {v : ν} {m : OrdMap κ ν} (h : find lt k m = some v) :
    ∃ k', (k', v) ∈ m ∧ key k = key k' := by
  induction m with
  | nil => cases h
  | cons e m ih =>
    rw [find_cons] at h
    split at h
    · rename_i he
      obtain rfl := Option.some.inj h
      exact ⟨e.1, List.mem_cons_self, (hk.eqv_iff k e.1).1 he⟩
    · obtain ⟨k', hmem, hkey⟩ := ih h
      exact ⟨k', List.mem_cons_of_mem _ hmem, hkey⟩

/-- A key that is not found stands in the map under no spelling. -/
theorem ne_of_find_eq_none {k : κ} {m : OrdMap κ ν} (h : find lt k m = none) : ∀ e ∈ m, key e.1 ≠ key k := by
  induction m with
  | nil => exact nofun
  | cons e m ih =>
    rw [find_cons] at h
    split at h
    · cases h
    · rename_i he
      refine List.forall_mem_cons.mpr ⟨fun hc => he ?_, ih h⟩
      exact (hk.eqv_iff k e.1).2 hc.symm

/-- **Assigning a new key adds one entry.** -/
theorem mem_set {k : κ} {v : ν} {m : OrdMap κ ν} (h : ∀ e ∈ m, key e.1 ≠ key k) {x : κ × ν} :
    x ∈ set lt k v m ↔ x = (k, v) ∨ x ∈ m := by
  induction m with
  | nil => rw [set_nil, List.mem_singleton, or_iff_left List.not_mem_nil]
  | cons e m ih =>
    obtain ⟨he, hm⟩ := List.forall_mem_cons.mp h
    rw [set_cons]
    split
    · rw [List.mem_cons]
    · split
      · rw [List.mem_cons, ih hm, List.mem_cons, or_left_comm]
      · rename_i h₁ h₂
        exact (he ((hk.eqv_iff k e.1).1 (by simp [eqv, h₁, h₂])).symm).elim

/-- **Assigning new keys, no two of them the same, adds their entries.** -/
theorem mem_foldl_set {es m : OrdMap κ ν} (hes : es.Pairwise fun a b => key a.1 ≠ key b.1)
    (hm : ∀ e ∈ m, ∀ e' ∈ es, key e.1 ≠ key e'.1) {x : κ × ν} :
    x ∈ es.foldl (fun m e => set lt e.1 e.2 m) m ↔ x ∈ m ∨ x ∈ es := by
  induction es generalizing m with
  | nil => rw [List.foldl_nil, or_iff_left List.not_mem_nil]
  | cons e es ih =>
    obtain ⟨hhead, htail⟩ := List.pairwise_cons.mp hes
    have hfirst : ∀ e' ∈ m, key e'.1 ≠ key e.1 := fun e' he' => hm e' he' e List.mem_cons_self
    have hrest : ∀ e' ∈ set lt e.1 e.2 m, ∀ e'' ∈ es, key e'.1 ≠ key e''.1 := by
      intro e' he' e'' he''
      rcases (mem_set hk hfirst).mp he' with rfl | he'
      · exact hhead e'' he''
      · exact hm e' he' e'' (List.mem_cons_of_mem _ he'')
    rw [List.foldl_cons, ih htail hrest, mem_set hk hfirst, List.mem_cons, or_comm (a := x = (e.1, e.2)), or_assoc]

/-- Assignments of other keys do not change what is found. -/
theorem find_foldl_set_of_ne {k : κ} {es : OrdMap κ ν} (h : ∀ e ∈ es, key k ≠ key e.1) (m : OrdMap κ ν) :
    find lt k (es.foldl (fun m e => set lt e.1 e.2 m) m) = find lt k m := by
  induction es generalizing m with
  | nil => rfl
  | cons e es ih =>
    obtain ⟨he, hes⟩ := List.forall_mem_cons.mp h
    rw [List.foldl_cons, ih hes, find_set_of_ne hk he]

/-! ### The values of a map in order -/

/-- A key below the first one is not found. -/
theorem find_eq_none_of_lt (htrans : ∀ a b c, lt a b = true → lt b c = true → lt a c = true) {k : κ}
    {e : κ × ν} {m : OrdMap κ ν} (h : (e :: m).Pairwise fun a b => lt a.1 b.1 = true) (hlt : lt k e.1 = true) :
    find lt k (e :: m) = none := by
  cases hfind : find lt k (e :: m) with
  | none => rfl
  | some v =>
    obtain ⟨k', hmem, hkey⟩ := exists_mem_of_find hk hfind
    have heqv : eqv lt k k' = true := (hk.eqv_iff k k').mpr hkey
    have hbelow : lt k k' = true := by
      rcases List.mem_cons.mp hmem with rfl | hmem
      · exact hlt
      · exact htrans _ _ _ hlt ((List.pairwise_cons.mp h).1 _ hmem)
    simp [eqv, hbelow] at heqv

/-- **Assigning puts one value in**, for the one that was found. -/
theorem count_values_set [DecidableEq ν] (htrans : ∀ a b c, lt a b = true → lt b c = true → lt a c = true) {k : κ}
    {v : ν} {m : OrdMap κ ν} (h : m.Pairwise fun a b => lt a.1 b.1 = true) (x : ν) :
    ((set lt k v m).map Prod.snd).count x + (if find lt k m = some x then 1 else 0) =
      (m.map Prod.snd).count x + if v = x then 1 else 0 := by
  induction m with
  | nil => simp [List.count_singleton]
  | cons e m ih =>
    rw [set_cons]
    split
    · rename_i hlt
      rw [find_eq_none_of_lt hk htrans h hlt, List.map_cons, List.count_cons]
      simp
    · split
      · rename_i hge hlt
        have hne : eqv lt k e.1 = false := by simp [eqv, hlt]
        have hrest := ih (List.pairwise_cons.mp h).2
        rw [find_cons, hne, if_neg Bool.false_ne_true, List.map_cons, List.map_cons, List.count_cons, List.count_cons]
        omega
      · rename_i hge hle
        have heq : eqv lt k e.1 = true := by simp [eqv, hge, hle]
        rw [find_cons, if_pos heq, List.map_cons, List.map_cons, List.count_cons, List.count_cons]
        simp only [beq_iff_eq, Option.some.injEq]
        omega

/-- **Erasing takes out the value that was found.** -/
theorem count_values_erase [DecidableEq ν] {k : κ} {m : OrdMap κ ν}
    (h : m.Pairwise fun a b => lt a.1 b.1 = true) (x : ν) :
    ((erase lt k m).map Prod.snd).count x + (if find lt k m = some x then 1 else 0) = (m.map Prod.snd).count x := by
  induction m with
  | nil => rfl
  | cons e m ih =>
    obtain ⟨he, hm⟩ := List.pairwise_cons.mp h
    have hrest := ih hm
    rw [find_cons]
    by_cases heq : eqv lt k e.1 = true
    · -- the key stands in an ordered map once
      have hnone : find lt k m = none := by
        cases hfind : find lt k m with
        | none => rfl
        | some v =>
          obtain ⟨k', hmem, hkey⟩ := exists_mem_of_find hk hfind
          have hkey' : key e.1 = key k' := ((hk.eqv_iff k e.1).mp heq).symm.trans hkey
          have := (hk.eqv_iff e.1 k').mpr hkey'
          simp [eqv, he _ hmem] at this
      rw [hnone, if_neg nofun, Nat.add_zero] at hrest
      rw [if_pos heq, erase, List.filter_cons_of_neg (by simpa using heq), List.map_cons, List.count_cons, ← hrest,
        erase]
      simp only [beq_iff_eq, Option.some.injEq]
    · rw [if_neg heq, erase, List.filter_cons_of_pos (by simpa using heq), List.map_cons, List.map_cons,
        List.count_cons,
        List.count_cons, ← hrest, erase]
      omega

end OrdMap

end Foundation
end Wuchat
