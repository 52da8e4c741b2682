/-
# The order of the timers

`WellFormed` is what every call keeps: the set is in order, its timers exist, timers that exist
have different addresses, and no `m_next` was written while its timer was in the set.

Each call is described once, by what it does to the membership and to the timers
(`addTimer_spec`, `cancel_spec`, …).  A timer that is taken out, given another time and put back
(`rekey_spec`) is the heart of `refresh`, `reset` and the recurring timers of `listExpiredCb`.
-/

import Wuchat.Timer.Manager

namespace Wuchat
namespace Timers

open Foundation

variable {γ : Type} {m : Manager γ} {i j : Nat}

/-- **What every call keeps.** -/
structure WellFormed (m : Manager γ) : Prop where
  sorted : OrdSet.Sorted m.key m.set
  known : ∀ i ∈ m.set, i < m.count
  distinct : ∀ i j, m.Alive i → m.Alive j → (m.timers i).addr = (m.timers j).addr → i = j
  rekeyed : ∀ w ∈ m.rekeyed, w.2 = false

/-- A new manager. -/
theorem wellFormed_new : WellFormed (Manager.new : Manager γ) where
  sorted := List.Pairwise.nil
  known i hi := by cases hi
  distinct i j hi := absurd hi.1 (Nat.not_lt_zero i)
  rekeyed w hw := by cases hw

namespace WellFormed

/-- A timer that waits is alive. -/
theorem alive (h : WellFormed m) (hi : i ∈ m.set) : m.Alive i := ⟨h.known i hi, .inr hi⟩

/-- **`find` finds what is in the set.** -/
theorem find_of_mem (h : WellFormed m) (hi : i ∈ m.set) : m.find i = some i := h.sorted.find_of_mem hi

/-- Timers that exist have keys of their own. -/
theorem eq_of_key_eq (h : WellFormed m) (hi : m.Alive i) (hj : m.Alive j) (hkey : m.key i = m.key j) : i = j :=
  h.distinct i j hi hj (congrArg (fun k => (ofLex k).2) hkey)

/-- **`find` finds nothing else.** -/
theorem find_eq_none (h : WellFormed m) (halive : m.Alive i) (hi : i ∉ m.set) : m.find i = none := by
  refine OrdSet.find_eq_none fun j hj hkey => ?_
  exact hi (h.eq_of_key_eq (h.alive hj) halive hkey ▸ hj)

end WellFormed

/-! ### Writes to a timer -/

section

variable {f : Timer γ → Timer γ}

/-- The timer that is changed. -/
@[simp] theorem modify_timers_self : (m.modify i f).timers i = f (m.timers i) := Function.update_self _ _ _

/-- The others are left. -/
theorem modify_timers_ne (hne : j ≠ i) : (m.modify i f).timers j = m.timers j := Function.update_of_ne hne _ _

/-- The set is left. -/
@[simp] theorem modify_set : (m.modify i f).set = m.set := rfl

/-- So is the count. -/
@[simp] theorem modify_count : (m.modify i f).count = m.count := rfl

/-- A write that leaves the key and the holder alone. -/
theorem WellFormed.modify (h : WellFormed m) (hnext : ∀ t, (f t).next = t.next) (haddr : ∀ t, (f t).addr = t.addr)
    (hheld : ∀ t, (f t).held = true → t.held = true) : WellFormed (m.modify i f) := by
  have hfield : ∀ j, ((m.modify i f).timers j).next = (m.timers j).next ∧
      ((m.modify i f).timers j).addr = (m.timers j).addr ∧
      (((m.modify i f).timers j).held = true → (m.timers j).held = true) := by
    intro j
    by_cases hj : j = i
    · rw [hj, modify_timers_self]
      exact ⟨hnext _, haddr _, hheld _⟩
    · rw [modify_timers_ne hj]
      exact ⟨rfl, rfl, id⟩
  have hkey : ∀ j, (m.modify i f).key j = m.key j := by
    intro j
    rw [Manager.key, Manager.key, Timer.key, Timer.key, (hfield j).1, (hfield j).2.1]
  have halive : ∀ j, (m.modify i f).Alive j → m.Alive j := by
    rintro j ⟨hlt, hheld | hmem⟩
    · exact ⟨hlt, .inl ((hfield j).2.2 hheld)⟩
    · exact ⟨hlt, .inr hmem⟩
  refine ⟨h.sorted.congr fun j _ => hkey j, h.known, ?_, h.rekeyed⟩
  intro j k hj hk heq
  rw [(hfield j).2.1, (hfield k).2.1] at heq
  exact h.distinct j k (halive j hj) (halive k hk) heq

end

/-! ### Out of the set and back -/

/-- A timer taken out of the set. -/
def Manager.without (i : Nat) (m : Manager γ) : Manager γ := { m with set := m.set.erase i }

/-- What waits without one timer. -/
theorem WellFormed.mem_without (h : WellFormed m) : j ∈ (m.without i).set ↔ j ∈ m.set ∧ j ≠ i := by
  rw [Manager.without, h.sorted.nodup.mem_erase_iff, and_comm]

/-- A timer erased leaves the manager well formed. -/
theorem WellFormed.without (h : WellFormed m) : WellFormed (m.without i) := by
  refine ⟨List.Pairwise.sublist List.erase_sublist h.sorted, ?_, ?_, h.rekeyed⟩
  · intro j hj
    exact h.known j (h.mem_without.1 hj).1
  · rintro j k ⟨hj, hj'⟩ ⟨hk, hk'⟩ heq
    exact h.distinct j k ⟨hj, hj'.imp id fun hmem => (h.mem_without.1 hmem).1⟩
      ⟨hk, hk'.imp id fun hmem => (h.mem_without.1 hmem).1⟩ heq

/-- `m_timers.erase(timer)` of a timer in the set takes it out. -/
theorem WellFormed.erase_eq (h : WellFormed m) (hi : i ∈ m.set) : m.erase i = m.without i := by
  rw [Manager.erase, Manager.without, h.sorted.erase_eq hi]

/-- The timer given other contents and put back. -/
def Manager.rekey (i : Nat) (f : Timer γ → Timer γ) (next : UInt64) (m : Manager γ) : Manager γ :=
  (((m.without i).modify i f).setNext i next).insert i

/-- The other timers are left by a new time. -/
theorem setNext_timers_ne {next : UInt64} (hne : j ≠ i) : (m.setNext i next).timers j = m.timers j :=
  Function.update_of_ne hne _ _

/-- The timer with its new time. -/
theorem setNext_timers_self {next : UInt64} : (m.setNext i next).timers i = { m.timers i with next } :=
  Function.update_self _ _ _

section

variable {f : Timer γ → Timer γ} {next : UInt64}

/-- The other timers are left by a new place in the order. -/
theorem rekey_timers_ne (hne : j ≠ i) : (m.rekey i f next).timers j = m.timers j := by
  have h₁ : (m.rekey i f next).timers j = ((m.without i).modify i f).timers j := setNext_timers_ne hne
  rw [h₁, modify_timers_ne hne]
  rfl

/-- The timer at its new place. -/
theorem rekey_timers_self : (m.rekey i f next).timers i = { f (m.timers i) with next } := by
  have h₁ : (m.rekey i f next).timers i = { ((m.without i).modify i f).timers i with next } := setNext_timers_self
  rw [h₁, modify_timers_self]
  rfl

end

/-- **Out of the set, another time, and back**: the members are the same, the order is right again, and
the time was written while the timer was outside. -/
theorem WellFormed.rekey (h : WellFormed m) (hi : i ∈ m.set) (f : Timer γ → Timer γ) (next : UInt64)
    (haddr : ∀ t, (f t).addr = t.addr) (hheld : ∀ t, (f t).held = t.held) :
    WellFormed (m.rekey i f next) ∧ (∀ j, j ∈ (m.rekey i f next).set ↔ j ∈ m.set) := by
  have hout : i ∉ (m.without i).set := fun hmem => (h.mem_without.1 hmem).2 rfl
  have haddr' : ∀ j, ((m.rekey i f next).timers j).addr = (m.timers j).addr := by
    intro j
    by_cases hj : j = i
    · rw [hj, rekey_timers_self]
      exact haddr _
    · rw [rekey_timers_ne hj]
  have hheld' : ∀ j, ((m.rekey i f next).timers j).held = (m.timers j).held := by
    intro j
    by_cases hj : j = i
    · rw [hj, rekey_timers_self]
      exact hheld _
    · rw [rekey_timers_ne hj]
  -- the key of the timer is its own
  have hown : ∀ j ∈ (m.without i).set, (m.rekey i f next).key j = (m.rekey i f next).key i → j = i := by
    intro j hj hkey
    have heq : ((m.rekey i f next).timers j).addr = ((m.rekey i f next).timers i).addr :=
      congrArg (fun k => (ofLex k).2) hkey
    rw [haddr', haddr'] at heq
    exact h.distinct j i (h.alive (h.mem_without.1 hj).1) (h.alive hi) heq
  have hmem : ∀ j, j ∈ (m.rekey i f next).set ↔ j ∈ m.set := by
    intro j
    have hins : j ∈ (m.rekey i f next).set ↔ j = i ∨ j ∈ (m.without i).set := OrdSet.mem_insert hown
    rw [hins, h.mem_without]
    constructor
    · rintro (rfl | ⟨hj, -⟩)
      · exact hi
      · exact hj
    · intro hj
      by_cases heq : j = i
      · exact .inl heq
      · exact .inr ⟨hj, heq⟩
  have hsorted : OrdSet.Sorted (m.rekey i f next).key (m.without i).set := by
    refine h.without.sorted.congr fun j hj => ?_
    have hne : j ≠ i := (h.mem_without.1 hj).2
    rw [Manager.key, Manager.key, rekey_timers_ne hne]
    rfl
  refine ⟨⟨hsorted.insert, ?_, ?_, ?_⟩, hmem⟩
  · intro j hj
    exact h.known j ((hmem j).1 hj)
  · rintro j k ⟨hj, hj'⟩ ⟨hk, hk'⟩ heq
    rw [haddr', haddr'] at heq
    rw [hheld', hmem] at hj' hk'
    exact h.distinct j k ⟨hj, hj'⟩ ⟨hk, hk'⟩ heq
  · intro w hw
    rcases List.mem_append.1 hw with hw | hw
    · exact h.rekeyed w hw
    · rw [List.mem_singleton.1 hw]
      exact decide_eq_false hout

/-! ### The calls -/

/-- The flag of the wake-up does not count. -/
theorem WellFormed.tickled (h : WellFormed m) (b : Bool) : WellFormed { m with tickled := b } :=
  ⟨h.sorted, h.known, h.distinct, h.rekeyed⟩

/-- The write of `cancel`. -/
def Manager.uncall (i : Nat) (m : Manager γ) : Manager γ := m.modify i fun t => { t with cb := none }

/-- Nor does a callback taken away. -/
theorem WellFormed.uncall (h : WellFormed m) : WellFormed (m.uncall i) :=
  h.modify (fun _ => rfl) (fun _ => rfl) fun _ => id

/-- **`cancel`** looks at the callback first; without the timer in the set it erases the end iterator. -/
theorem WellFormed.cancel_eq (h : WellFormed m) (hi : m.Alive i) : m.cancel i =
    if (m.timers i).cb.isSome then if i ∈ m.set then some (true, (m.uncall i).without i) else none
    else some (false, m) := by
  have halive : (m.uncall i).Alive i := by
    refine ⟨hi.1, ?_⟩
    rw [Manager.uncall, modify_timers_self]
    exact hi.2
  rw [Manager.cancel]
  split
  · rename_i hcb
    split
    · rename_i hmem
      have hfind : (m.uncall i).find i = some i := h.uncall.find_of_mem hmem
      show ((m.uncall i).eraseAt ((m.uncall i).find i)).map _ = _
      rw [hfind]
      rfl
    · rename_i hmem
      have hfind : (m.uncall i).find i = none := h.uncall.find_eq_none halive hmem
      show ((m.uncall i).eraseAt ((m.uncall i).find i)).map _ = _
      rw [hfind]
      rfl
  · rfl

/-- **`refresh`** gives a timer in the set, with a callback, a new time. -/
theorem WellFormed.refresh_eq (h : WellFormed m) (hi : m.Alive i) (now : UInt64) : m.refresh i now =
    if (m.timers i).cb.isSome ∧ i ∈ m.set then some (true, m.rekey i id (now + (m.timers i).ms))
    else some (false, m) := by
  have hid : ∀ m : Manager γ, m.modify i id = m := fun m => by
    rw [Manager.modify, id, Function.update_eq_self]
  rw [Manager.refresh]
  by_cases hcb : (m.timers i).cb.isSome
  · rw [if_pos hcb]
    by_cases hmem : i ∈ m.set
    · rw [if_pos ⟨hcb, hmem⟩, h.find_of_mem hmem, Manager.rekey, hid]
      rfl
    · rw [if_neg fun hc => hmem hc.2, h.find_eq_none hi hmem]
  · rw [if_neg hcb, if_neg fun hc => hcb hc.1]

/-- The start from which `reset` counts. -/
def Manager.startOf (i : Nat) (fromNow : Bool) (now : UInt64) (m : Manager γ) : UInt64 :=
  if fromNow then now else (m.timers i).next - (m.timers i).ms

/-- **`reset`** returns at once when nothing is to change, and else does as `refresh`, with the new delay. -/
theorem WellFormed.reset_eq (h : WellFormed m) (hi : m.Alive i) (ms : UInt64) (fromNow : Bool) (now : UInt64) :
    ∃ tickled, m.reset i ms fromNow now =
      if ms = (m.timers i).ms ∧ ¬ fromNow then some (true, m)
      else if (m.timers i).cb.isSome ∧ i ∈ m.set then
        some (true, { m.rekey i (fun t => { t with ms }) (m.startOf i fromNow now + ms) with tickled })
      else some (false, m) := by
  refine ⟨((m.without i).modify i fun t => { t with ms }).setNext i (m.startOf i fromNow now + ms)
    |>.addTimerLocked i |>.tickled, ?_⟩
  rw [Manager.reset]
  split
  · rfl
  by_cases hcb : (m.timers i).cb.isSome
  · rw [if_pos hcb]
    by_cases hmem : i ∈ m.set
    · rw [if_pos ⟨hcb, hmem⟩, h.find_of_mem hmem]
      rfl
    · rw [if_neg fun hc => hmem hc.2, h.find_eq_none hi hmem]
  · rw [if_neg hcb, if_neg fun hc => hcb hc.1]

/-- **`addTimer`** puts the new timer in the set. -/
theorem WellFormed.addTimer (h : WellFormed m) {addr : Nat} {ms now : UInt64} {cb : Option (Callback γ)}
    {recurring : Bool} {m' : Manager γ} (hadd : m.addTimer addr ms cb recurring now = some m') :
    WellFormed m' ∧ m'.count = m.count + 1 ∧ (∀ j, j ∈ m'.set ↔ j = m.count ∨ j ∈ m.set) ∧
      m'.timers = Function.update m.timers m.count ⟨addr, recurring, ms, now + ms, cb, true⟩ := by
  rw [Manager.addTimer] at hadd
  split at hadd
  · rename_i hfree
    obtain rfl := Option.some.inj hadd
    generalize hm₁ : ({ m with
      count := m.count + 1
      timers := Function.update m.timers m.count ⟨addr, recurring, ms, now + ms, cb, true⟩ } : Manager γ) = m₁
    have htimers₁ : m₁.timers = Function.update m.timers m.count ⟨addr, recurring, ms, now + ms, cb, true⟩ := by
      rw [← hm₁]
    have hset₁ : m₁.set = m.set := by rw [← hm₁]
    have hnew : (m₁.timers m.count).addr = addr := by rw [htimers₁, Function.update_self]
    have hold : ∀ j, j ≠ m.count → m₁.timers j = m.timers j := fun j hj => by
      rw [htimers₁, Function.update_of_ne hj]
    have hne : ∀ j, m.Alive j → j ≠ m.count := fun j hj => Nat.ne_of_lt hj.1
    -- the new address is not that of a timer in the set
    have hown : ∀ j ∈ m.set, m₁.key j = m₁.key m.count → j = m.count := by
      intro j hj hkey
      have halive := h.alive hj
      have heq : (m₁.timers j).addr = (m₁.timers m.count).addr := congrArg (fun k => (ofLex k).2) hkey
      rw [hold j (hne j halive), hnew] at heq
      exact absurd heq (hfree j halive.1 halive)
    have hmem : ∀ j, j ∈ (m₁.insert m.count).set ↔ j = m.count ∨ j ∈ m.set := fun j => by
      rw [Manager.insert, hset₁]
      exact OrdSet.mem_insert hown
    have hsorted : OrdSet.Sorted m₁.key m.set := h.sorted.congr fun j hj => by
      rw [Manager.key, Manager.key, hold j (hne j (h.alive hj))]
    have hwf : WellFormed (m₁.insert m.count) := by
      refine ⟨?_, ?_, ?_, ?_⟩
      · rw [Manager.insert, hset₁]
        exact hsorted.insert
      · intro j hj
        rw [Manager.insert, ← hm₁]
        rcases (hmem j).1 hj with rfl | hj
        · exact Nat.lt_succ_self _
        · exact Nat.lt_succ_of_lt (h.known j hj)
      · have hcase : ∀ j, (m₁.insert m.count).Alive j → j = m.count ∨ m.Alive j := by
          rintro j ⟨hlt, hlive⟩
          by_cases hj : j = m.count
          · exact .inl hj
          · refine .inr ⟨?_, ?_⟩
            · rw [Manager.insert, ← hm₁] at hlt
              exact Nat.lt_of_le_of_ne (Nat.le_of_lt_succ hlt) hj
            · rw [hmem j] at hlive
              rcases hlive with hheld | hmem'
              · left
                rwa [Manager.insert, hold j hj] at hheld
              · exact .inr (hmem'.resolve_left hj)
        intro j k hj hk heq
        have heq : (m₁.timers j).addr = (m₁.timers k).addr := heq
        rcases hcase j hj with rfl | hj <;> rcases hcase k hk with rfl | hk
        · rfl
        · rw [hnew, hold k (hne k hk)] at heq
          exact absurd heq.symm (hfree k hk.1 hk)
        · rw [hnew, hold j (hne j hj)] at heq
          exact absurd heq (hfree j hj.1 hj)
        · rw [hold j (hne j hj), hold k (hne k hk)] at heq
          exact h.distinct j k hj hk heq
      · rw [Manager.insert, ← hm₁]
        exact h.rekeyed
    refine ⟨hwf.tickled _, ?_, hmem, ?_⟩
    · rw [Manager.addTimerLocked, Manager.insert, ← hm₁]
    · rw [Manager.addTimerLocked, Manager.insert, ← htimers₁]
  · cases hadd

/-! ### The loop of `listExpiredCb` -/

/-- A timer after its turn in the loop. -/
def Timer.rearm (now : UInt64) (t : Timer γ) : Timer γ := if t.recurring then { t with next := now + t.ms } else t

/-- A timer armed anew recurs as before. -/
@[simp] theorem rearm_recurring (now : UInt64) (t : Timer γ) : (t.rearm now).recurring = t.recurring := by
  rw [Timer.rearm]
  split <;> rfl

/-- **One turn of the loop**: a recurring timer stays with a new time, another one leaves the set. -/
theorem WellFormed.collect (h : WellFormed m) (hi : i ∈ m.set) (now : UInt64) :
    WellFormed (m.collect now i) ∧ (m.collect now i).count = m.count ∧
      (∀ j, j ∈ (m.collect now i).set ↔ j ∈ m.set ∧ (j = i → (m.timers i).recurring = true)) ∧
      (m.collect now i).timers = Function.update m.timers i ((m.timers i).rearm now) := by
  rw [Manager.collect, h.erase_eq hi]
  split
  · rename_i hrec
    have hid : (m.without i).modify i id = m.without i := by
      rw [Manager.modify, id, Function.update_eq_self]
    have hrekey : ((m.without i).setNext i (now + (m.timers i).ms)).insert i =
        m.rekey i id (now + (m.timers i).ms) := by rw [Manager.rekey, hid]
    rw [hrekey]
    obtain ⟨hwf, hmem⟩ := h.rekey hi id (now + (m.timers i).ms) (fun _ => rfl) fun _ => rfl
    refine ⟨hwf, rfl, fun j => ?_, ?_⟩
    · rw [hmem]
      simp [hrec]
    · funext j
      by_cases hj : j = i
      · rw [hj, rekey_timers_self, Function.update_self, Timer.rearm, if_pos hrec]
        rfl
      · rw [rekey_timers_ne hj, Function.update_of_ne hj]
  · rename_i hrec
    refine ⟨h.without, rfl, fun j => ?_, ?_⟩
    · rw [h.mem_without]
      simp [hrec]
    · rw [Timer.rearm, if_neg hrec, Function.update_eq_self]
      rfl

/-- **The loop**, over timers that are in the set. -/
theorem WellFormed.collectAll (now : UInt64) : ∀ {is : List Nat} {m : Manager γ}, WellFormed m → is.Nodup →
    (∀ i ∈ is, i ∈ m.set) →
    WellFormed (is.foldl (Manager.collect now) m) ∧ (is.foldl (Manager.collect now) m).count = m.count ∧
      (∀ j, j ∈ (is.foldl (Manager.collect now) m).set ↔ j ∈ m.set ∧ (j ∈ is → (m.timers j).recurring = true)) ∧
      (∀ j, (is.foldl (Manager.collect now) m).timers j =
        if j ∈ is then (m.timers j).rearm now else m.timers j)
  | [], m, h, _, _ => ⟨h, rfl, by simp, by simp⟩
  | i :: is, m, h, hnodup, hmem => by
    obtain ⟨hnot, hnodup'⟩ := List.nodup_cons.1 hnodup
    obtain ⟨h₁, hcount₁, hmem₁, htimers₁⟩ := h.collect (hmem i List.mem_cons_self) now
    have hold : ∀ j, j ≠ i → (m.collect now i).timers j = m.timers j := fun j hj => by
      rw [htimers₁, Function.update_of_ne hj]
    have hne : ∀ j ∈ is, j ≠ i := fun j hj heq => hnot (heq ▸ hj)
    obtain ⟨h₂, hcount₂, hmem₂, htimers₂⟩ := WellFormed.collectAll now h₁ hnodup' fun j hj =>
      (hmem₁ j).2 ⟨hmem j (List.mem_cons_of_mem _ hj), fun heq => absurd heq (hne j hj)⟩
    rw [List.foldl_cons]
    refine ⟨h₂, hcount₂.trans hcount₁, fun j => ?_, fun j => ?_⟩
    · rw [hmem₂, hmem₁, List.mem_cons]
      by_cases hj : j = i
      · subst hj
        simp [hnot]
      · simp [hj, hold j hj]
    · rw [htimers₂]
      by_cases hj : j = i
      · subst hj
        rw [if_neg hnot, htimers₁, Function.update_self, if_pos List.mem_cons_self]
      · rw [hold j hj]
        simp [hj]

/-- **`listExpiredCb`** takes timers of the set, each once, whose time is not after now. -/
theorem WellFormed.expired (h : WellFormed m) (now : UInt64) (addr : Nat) :
    (m.expired now addr).Nodup ∧ ∀ i ∈ m.expired now addr, i ∈ m.set ∧ (m.timers i).next ≤ now := by
  refine ⟨h.sorted.nodup_upTo, fun i hi => ?_⟩
  obtain ⟨hmem, hle⟩ := OrdSet.mem_upTo hi
  refine ⟨hmem, ?_⟩
  rw [UInt64.le_iff_toNat_le]
  rcases Prod.Lex.toLex_le_toLex.1 hle with hlt | ⟨heq, -⟩
  · exact Nat.le_of_lt hlt
  · exact Nat.le_of_eq heq

end Timers
end Wuchat
