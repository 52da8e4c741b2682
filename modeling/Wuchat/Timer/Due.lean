/-
# Which timers are due

`getNextTimer` says `0` when the first timer of the set is due, and `listExpiredCb` hands out the
timers up to a timer it makes for now.  The two do not agree on what is due: timers with one
`m_next` are in the order of their addresses, so of the timers that are due exactly now only those
below the address of the new one are handed out (`expires_due_iff`).
-/

import Wuchat.Timer.Invariant

namespace Wuchat
namespace Timers

open Foundation

variable {γ : Type} {m m' : Manager γ} {now : UInt64} {addr i : Nat} {cbs : List (Nat × Option (Callback γ))}

/-- The timer is in the set, and its time is not after now. -/
def Manager.Due (m : Manager γ) (now : UInt64) (i : Nat) : Prop := i ∈ m.set ∧ (m.timers i).next ≤ now

/-- **The timers that are due are handed out**, in the order of their times, and are taken out of the set or armed
again; the others stay as they are. -/
structure ExpiresDue (m : Manager γ) (now : UInt64) (cbs : List (Nat × Option (Callback γ))) (m' : Manager γ) :
    Prop where
  handed : ∀ i, i ∈ cbs.map Prod.fst ↔ m.Due now i
  once : (cbs.map Prod.fst).Nodup
  callbacks : ∀ e ∈ cbs, e.2 = (m.timers e.1).cb
  inOrder : cbs.Pairwise fun a b => (m.timers a.1).next ≤ (m.timers b.1).next
  set : ∀ i, i ∈ m'.set ↔ i ∈ m.set ∧ (m.Due now i → (m.timers i).recurring = true)
  rearmed : ∀ i, m.Due now i → (m.timers i).recurring = true →
    m'.timers i = { m.timers i with next := now + (m.timers i).ms }
  untouched : ∀ i, ¬ m.Due now i → m'.timers i = m.timers i
  nextTimer : (m.getNextTimer now).1 = 0 → cbs ≠ []

/-- **What `listExpiredCb` finds due**: at equal times the address decides. -/
theorem WellFormed.mem_expired (h : WellFormed m) : i ∈ m.expired now addr ↔ i ∈ m.set ∧
    ((m.timers i).next < now ∨ (m.timers i).next = now ∧ (m.timers i).addr ≤ addr) := by
  rw [Manager.expired, OrdSet.Sorted.mem_upTo_iff h.sorted, Manager.key, Timer.key, Prod.Lex.toLex_le_toLex,
    UInt64.lt_iff_toNat_lt, UInt64.toNat_inj]

/-- `getNextTimer` says `0` for a timer that is due only. -/
theorem exists_due_of_nextTimer (h : (m.getNextTimer now).1 = 0) : ∃ i, m.Due now i := by
  rw [Manager.getNextTimer] at h
  dsimp only at h
  split at h
  · cases h
  · rename_i i is hset
    refine ⟨i, by rw [hset]; exact List.mem_cons_self, ?_⟩
    by_contra hlate
    rw [if_neg hlate] at h
    refine hlate (UInt64.le_of_eq ?_)
    rwa [UInt64.sub_eq_iff_eq_add, UInt64.zero_add] at h

/-- What `listExpiredCb` does, in a set that is in order. -/
theorem WellFormed.listExpiredCb_eq (h : WellFormed m) (now : UInt64) (hfree : m.Free addr) : ∃ m',
    m.listExpiredCb now addr = some ((m.expired now addr).map fun i => (i, (m.timers i).cb), m') ∧
      (∀ i, i ∈ m'.set ↔ i ∈ m.set ∧ (i ∈ m.expired now addr → (m.timers i).recurring = true)) ∧
      ∀ i, m'.timers i = if i ∈ m.expired now addr then (m.timers i).rearm now else m.timers i := by
  obtain ⟨hnodup, hmem⟩ := h.expired now addr
  obtain ⟨-, -, hset, htimers⟩ := WellFormed.collectAll now h hnodup fun i hi => (hmem i hi).1
  exact ⟨_, if_pos hfree, hset, htimers⟩

/-- **The timers that are due are handed out exactly if the address of the new timer is above those of the timers that
are due exactly now.** -/
theorem expires_due_iff (h : WellFormed m) (now : UInt64) (hfree : m.Free addr) :
    ∃ cbs m', m.listExpiredCb now addr = some (cbs, m') ∧
      (ExpiresDue m now cbs m' ↔ ∀ i ∈ m.set, (m.timers i).next = now → (m.timers i).addr < addr) := by
  obtain ⟨m', heq, hset, htimers⟩ := h.listExpiredCb_eq now hfree
  refine ⟨_, m', heq, fun hdue i hi hnext => ?_, fun haddr => ?_⟩
  · have hhanded := (hdue.handed i).2 ⟨hi, UInt64.le_of_eq hnext⟩
    rw [List.map_map, Function.comp_def, List.map_id', h.mem_expired] at hhanded
    have hne := hfree i (h.known i hi) (h.alive hi)
    rcases hhanded.2 with hlt | ⟨-, hle⟩
    · exact absurd hnext (UInt64.ne_of_lt hlt)
    · exact Nat.lt_of_le_of_ne hle hne
  · -- what is found due is what is due
    have hexp : ∀ i, i ∈ m.expired now addr ↔ m.Due now i := by
      intro i
      rw [h.mem_expired, Manager.Due, UInt64.le_iff_lt_or_eq]
      refine and_congr_right fun hi => or_congr_right ⟨fun hr => hr.1, fun hr => ⟨hr, ?_⟩⟩
      exact Nat.le_of_lt (haddr i hi hr)
    have hfst : ((m.expired now addr).map fun i => (i, (m.timers i).cb)).map Prod.fst = m.expired now addr := by
      rw [List.map_map, Function.comp_def, List.map_id']
    refine ⟨fun i => ?_, ?_, fun e he => ?_, ?_, fun i => ?_, fun i hi hrec => ?_, fun i hi => ?_, fun hzero hnil => ?_⟩
    · rw [hfst, hexp]
    · rw [hfst]
      exact (h.expired now addr).1
    · obtain ⟨i, -, rfl⟩ := List.mem_map.1 he
      rfl
    · rw [List.pairwise_map]
      refine List.Pairwise.imp (fun {i j} (hlt : m.key i < m.key j) => ?_) (OrdSet.Sorted.sorted_upTo h.sorted)
      rw [UInt64.le_iff_toNat_le]
      rcases Prod.Lex.toLex_lt_toLex.1 hlt with hlt | ⟨heq, -⟩
      · exact Nat.le_of_lt hlt
      · exact Nat.le_of_eq heq
    · rw [hset, hexp]
    · rw [htimers, if_pos ((hexp i).2 hi), Timer.rearm, if_pos hrec]
    · rw [htimers, if_neg fun hc => hi ((hexp i).1 hc)]
    · obtain ⟨i, hi⟩ := exists_due_of_nextTimer hzero
      rw [List.map_eq_nil_iff] at hnil
      have := (hexp i).2 hi
      rw [hnil] at this
      cases this

/-- A timer that is due at five, at address eight. -/
def oneTimer : Manager Unit := ⟨1, fun _ => ⟨8, false, 5, 5, some (.fn ()), true⟩, [0], true, []⟩

/-- The manager of the example. -/
theorem wellFormed_oneTimer : WellFormed oneTimer where
  sorted := List.pairwise_singleton _ _
  known i hi := by
    obtain rfl := List.mem_singleton.1 hi
    exact Nat.one_pos
  distinct i j hi hj _ := (Nat.lt_one_iff.1 hi.1).trans (Nat.lt_one_iff.1 hj.1).symm
  rekeyed w hw := by cases hw

/-- With the new timer above it, it is handed out. -/
theorem expires_due_iff_oneTimer : ∃ cbs m', oneTimer.listExpiredCb 5 16 = some (cbs, m') ∧
    ExpiresDue oneTimer 5 cbs m' := by
  obtain ⟨cbs, m', heq, hiff⟩ := expires_due_iff wellFormed_oneTimer 5 (by decide : oneTimer.Free 16)
  exact ⟨cbs, m', heq, hiff.2 fun i _ _ => (by decide : 8 < 16)⟩

/-- With the new timer below it, it is not, though it is due. -/
theorem due_timer_left : ∃ m, (Manager.new : Manager Unit).addTimer 8 5 (some (.fn ())) false 0 = some m ∧
    (m.getNextTimer 5).1 = 0 ∧ ∃ m', m.listExpiredCb 5 4 = some ([], m') := by
  refine ⟨_, rfl, by decide, _, rfl⟩

end Timers
end Wuchat
