/-
# Timers over whole runs

Two results about every run.  The set stays in order and holds exactly the pending timers
(`timers_in_order`).  And a callback is handed out when it should be (`handed_out_in_time`): not
after a `cancel` that returned true, once for a timer that is not recurring, once in a call,
and not before its time.

The time is told by the history (`armed`): the start and the delay of the last arming.  An
arming is the creation, a `refresh`, a `reset`, or the firing of a recurring timer; a `reset`
that does not count from now keeps the start.
-/

import Wuchat.Timer.History

namespace Wuchat
namespace Timers

open Foundation

variable {γ : Type}

/-- The start and the delay of a timer after an event. -/
def Event.arm (i : Nat) (a : Option (UInt64 × UInt64)) : Event γ → Option (UInt64 × UInt64)
  | .added j ms _ _ now => if j = i then some (now, ms) else a
  | .refreshed j now ret => if j = i ∧ ret = true then a.map fun p => (now, p.2) else a
  | .reset j ms fromNow now ret =>
    if j = i ∧ ret = true then (if fromNow then some (now, ms) else a.map fun p => (p.1, ms)) else a
  | .expired now cbs => if i ∈ cbs.map Prod.fst then a.map fun p => (now, p.2) else a
  | _ => a

/-- The start and the delay of the last arming of a timer. -/
def armed (i : Nat) (log : List (Event γ)) : Option (UInt64 × UInt64) := log.foldl (Event.arm i) none

/-- What a timer is armed for behind one more event. -/
theorem armed_snoc (i : Nat) (log : List (Event γ)) (e : Event γ) : armed i (log ++ [e]) = e.arm i (armed i log) := by
  rw [armed, List.foldl_append]
  rfl

/-- The first parts of pairs. -/
theorem map_fst_pair {α β : Type*} (f : α → β) (as : List α) : (as.map fun a => (a, f a)).map Prod.fst = as := by
  rw [List.map_map]
  exact List.map_id as

/-- The time of every pending timer is its start plus its delay. -/
def Armed (w : World γ) : Prop := ∀ i ∈ w.mgr.set, ∃ start,
  armed i w.log = some (start, (w.mgr.timers i).ms) ∧ (w.mgr.timers i).next = start + (w.mgr.timers i).ms ∧
    start.toNat + (w.mgr.timers i).ms.toNat < 2 ^ 64

/-- What is asked of an event, given the events before it. -/
def InTime (before : List (Event γ)) : Event γ → Prop
  | .expired now cbs => (cbs.map Prod.fst).Nodup ∧ ∀ i ∈ cbs.map Prod.fst,
      ¬ Cancelled before i ∧ (Added before i false → ¬ Collected before i) ∧
        ∃ start delay, armed i before = some (start, delay) ∧ start.toNat + delay.toNat ≤ now.toNat
  | _ => True

section

variable {w w' : World γ} {e : Event γ} {i : Nat}

/-- A timer that keeps its time and its delay stays armed. -/
theorem Armed.keep (h : Armed w) (hi : i ∈ w.mgr.set) (hlog : armed i w'.log = armed i w.log)
    (hms : (w'.mgr.timers i).ms = (w.mgr.timers i).ms) (hnext : (w'.mgr.timers i).next = (w.mgr.timers i).next) :
    ∃ start, armed i w'.log = some (start, (w'.mgr.timers i).ms) ∧
      (w'.mgr.timers i).next = start + (w'.mgr.timers i).ms ∧
      start.toNat + (w'.mgr.timers i).ms.toNat < 2 ^ 64 := by
  rw [hlog, hms, hnext]
  exact h i hi

/-- The start is what is left of the time without the delay. -/
theorem Armed.start_eq (h : Armed w) (hi : i ∈ w.mgr.set) :
    armed i w.log = some ((w.mgr.timers i).next - (w.mgr.timers i).ms, (w.mgr.timers i).ms) := by
  obtain ⟨start, harm, hnext, -⟩ := h i hi
  rw [harm, hnext, UInt64.add_sub_cancel]

/-- The arming by `refresh` and `reset`. -/
theorem Armed.rearms (h : Armed w) (hi : i ∈ w.mgr.set) {ms next : UInt64} (he : e.Rearms w.mgr i ms next)
    (hwrap : e.NoWrap w.mgr) : ∃ start, e.arm i (armed i w.log) = some (start, ms) ∧ next = start + ms ∧
      start.toNat + ms.toNat < 2 ^ 64 := by
  cases e with
  | refreshed j now ret =>
    obtain ⟨rfl, rfl, rfl, rfl⟩ := he
    refine ⟨now, ?_, rfl, hwrap⟩
    rw [Event.arm, if_pos ⟨rfl, rfl⟩, h.start_eq hi]
    rfl
  | reset j ms' fromNow now ret =>
    obtain ⟨rfl, rfl, rfl, rfl⟩ := he
    refine ⟨w.mgr.startOf j fromNow now, ?_, rfl, hwrap⟩
    rw [Event.arm, if_pos ⟨rfl, rfl⟩, h.start_eq hi, Manager.startOf]
    split <;> rfl
  | added i ms cb recurring now => exact he.elim
  | cancelled i ret => exact he.elim
  | expired now cbs => exact he.elim
  | nextTimer ret => exact he.elim
  | released i => exact he.elim

/-- The events that rearm one timer leave the others. -/
theorem Event.Rearms.arm_ne {m : Manager γ} {ms next : UInt64} (he : e.Rearms m i ms next) {j : Nat} (hj : j ≠ i)
    (a : Option (UInt64 × UInt64)) : e.arm j a = a := by
  cases e with
  | refreshed k now ret =>
    obtain ⟨rfl, -⟩ := he
    exact if_neg fun hc => hj hc.1.symm
  | reset k ms' fromNow now ret =>
    obtain ⟨rfl, -⟩ := he
    exact if_neg fun hc => hj hc.1.symm
  | added i ms cb recurring now => exact he.elim
  | cancelled i ret => exact he.elim
  | expired now cbs => exact he.elim
  | nextTimer ret => exact he.elim
  | released i => exact he.elim

/-- Quiet events arm nothing. -/
theorem Armed.quiet (h : Armed w) (hi : i ∈ w.mgr.set) (he : e.Quiet w.mgr) :
    e.arm i (armed i w.log) = armed i w.log := by
  cases e with
  | refreshed j now ret =>
    obtain rfl : ret = false := he
    exact if_neg fun hc => Bool.noConfusion hc.2
  | reset j ms fromNow now ret =>
    rw [Event.arm]
    split
    · rename_i hc
      obtain ⟨rfl, rfl⟩ := hc
      rcases he with he | ⟨rfl, rfl⟩
      · cases he
      · rw [h.start_eq hi]
        rfl
    · rfl
  | added i ms cb recurring now => exact he.elim
  | cancelled i ret => rfl
  | expired now cbs => exact he.elim
  | nextTimer ret => rfl
  | released i => rfl

/-- **Every call keeps the pending timers armed.** -/
theorem Armed.step (h : Armed w) (hlog : w'.log = w.log ++ [e])
    (heff : Effect w.mgr e w'.mgr) (hwrap : e.NoWrap w.mgr) : Armed w' := by
  intro j hj
  have harm : armed j w'.log = e.arm j (armed j w.log) := by rw [hlog, armed_snoc]
  generalize hm : w'.mgr = m' at heff
  cases heff with
  | @added addr ms now cb recurring _ hcount hmem htimers =>
    subst hm
    by_cases hnew : j = w.mgr.count
    · rw [hnew] at harm ⊢
      rw [htimers, Function.update_self]
      exact ⟨now, harm.trans (if_pos rfl), rfl, hwrap⟩
    · have hold : w'.mgr.timers j = w.mgr.timers j := by rw [htimers, Function.update_of_ne hnew]
      have hkeep : armed j w'.log = armed j w.log := harm.trans (if_neg fun heq => hnew heq.symm)
      exact h.keep (((hmem j).1 hj).resolve_left hnew) hkeep (by rw [hold]) (by rw [hold])
  | cancelled _ _ hcount hmem htimers =>
    subst hm
    obtain ⟨hj, hne⟩ := (hmem j).1 hj
    have hold : w'.mgr.timers j = w.mgr.timers j := by rw [htimers, Function.update_of_ne hne]
    exact h.keep hj harm (by rw [hold]) (by rw [hold])
  | @rearmed i ms next _ _ hrearms hi hcount hmem htimers =>
    subst hm
    by_cases heq : j = i
    · subst heq
      obtain ⟨start, hstart, hnext, hlt⟩ := h.rearms hi hrearms hwrap
      rw [htimers, Function.update_self]
      exact ⟨start, harm.trans hstart, hnext, hlt⟩
    · have hold : w'.mgr.timers j = w.mgr.timers j := by rw [htimers, Function.update_of_ne heq]
      exact h.keep ((hmem j).1 hj) (harm.trans (hrearms.arm_ne heq _)) (by rw [hold]) (by rw [hold])
  | @expired now is _ hnodup hdue hcount hmem htimers =>
    subst hm
    obtain ⟨hj, hrec⟩ := (hmem j).1 hj
    have hids : (is.map fun i => (i, (w.mgr.timers i).cb)).map Prod.fst = is := map_fst_pair _ is
    by_cases hin : j ∈ is
    · have hself : w'.mgr.timers j = { w.mgr.timers j with next := now + (w.mgr.timers j).ms } := by
        rw [htimers, if_pos hin, Timer.rearm, if_pos (hrec hin)]
      rw [hself]
      refine ⟨now, ?_, rfl, hwrap j hj (hrec hin)⟩
      rw [harm, Event.arm, hids, if_pos hin, h.start_eq hj]
      rfl
    · have hold : w'.mgr.timers j = w.mgr.timers j := by rw [htimers, if_neg hin]
      have hkeep : armed j w'.log = armed j w.log := by rw [harm, Event.arm, hids, if_neg hin]
      exact h.keep hj hkeep (by rw [hold]) (by rw [hold])
  | quiet hquiet hcount hset htimers =>
    subst hm
    rw [hset] at hj
    exact h.keep hj (harm.trans (h.quiet hj hquiet)) (by rw [htimers]) (by rw [htimers])

/-- **What `listExpiredCb` hands out is in time.** -/
theorem Armed.inTime (h : Armed w) (hist : History w) {m' : Manager γ} (heff : Effect w.mgr e m') : InTime w.log e := by
  cases heff with
  | @expired now is _ hnodup hdue hcount hmem htimers =>
    have hids : (is.map fun i => (i, (w.mgr.timers i).cb)).map Prod.fst = is := map_fst_pair _ is
    rw [InTime, hids]
    refine ⟨hnodup, fun i hi => ?_⟩
    obtain ⟨hin, hle⟩ := hdue i hi
    have hlt := hist.wf.known i hin
    obtain ⟨hcan, hcol⟩ := (hist.mem i hlt).1 hin
    obtain ⟨start, harm, hnext, hsum⟩ := h i hin
    refine ⟨hcan, fun hadd hc => hcol ⟨((hist.added i false).1 hadd).2, hc⟩, start, _, harm, ?_⟩
    rw [UInt64.le_iff_toNat_le, hnext, UInt64.toNat_add, Nat.mod_eq_of_lt hsum] at hle
    exact hle
  | added addr hcount hmem htimers => trivial
  | cancelled hi hcb hcount hmem htimers => trivial
  | rearmed hrearms hi hcount hmem htimers =>
    cases e with
    | expired now cbs => exact hrearms.elim
    | _ => trivial
  | quiet hquiet hcount hset htimers =>
    cases e with
    | expired now cbs => exact hquiet.elim
    | _ => trivial

end

/-- **Callbacks are handed out in time.**  For every run whose sums stay below `2^64`, whatever the clock reads:
one `listExpiredCb` hands each timer out once; none of them was cancelled before; none that is not
recurring was handed out before; and the clock of the call is at or behind the start plus the
delay of the timer's last arming. -/
theorem handed_out_in_time {calls : List (Call γ)} {w : World γ}
    (hrun : (system : System (World γ) (Call γ)).Run (fun w c => c.NoWrap w.mgr) calls w)
    {pre post : List (Event γ)} {now : UInt64} {cbs : List (Nat × Option (Callback γ))}
    (hlog : w.log = pre ++ .expired now cbs :: post) :
    (cbs.map Prod.fst).Nodup ∧ ∀ i ∈ cbs.map Prod.fst,
      ¬ Cancelled pre i ∧ (Added pre i false → ¬ Collected pre i) ∧
        ∃ start delay, armed i pre = some (start, delay) ∧ start.toNat + delay.toNat ≤ now.toNat := by
  have hall : History w ∧ Armed w ∧ Along InTime w.log := by
    refine hrun.invariant (I := fun _ w => History w ∧ Armed w ∧ Along InTime w.log) ?_ ?_
    · have hnone : Armed (⟨.new, []⟩ : World γ) := fun i hi => by cases hi
      exact ⟨history_init, hnone, .nil⟩
    · rintro _ u c v ⟨hist, harm, halong⟩ hwrap hnext
      obtain ⟨-, e, hlog', heff, hwrap'⟩ := next_effect hist.wf hnext
      refine ⟨hist.step hnext, harm.step hlog' heff (hwrap' hwrap), ?_⟩
      rw [hlog']
      exact halong.snoc (harm.inTime hist heff)
  exact hall.2.2.at hlog

/-- Whether a call's time stays below 2⁶⁴ can be computed. -/
instance (m : Manager γ) : (c : Call γ) → Decidable (c.NoWrap m)
  | .addTimer _ ms _ _ now => inferInstanceAs (Decidable (now.toNat + ms.toNat < 2 ^ 64))
  | .addConditionTimer _ ms _ _ _ now => inferInstanceAs (Decidable (now.toNat + ms.toNat < 2 ^ 64))
  | .cancel _ => .isTrue trivial
  | .refresh i now => inferInstanceAs (Decidable (now.toNat + (m.timers i).ms.toNat < 2 ^ 64))
  | .reset i ms fromNow now => inferInstanceAs (Decidable ((m.startOf i fromNow now).toNat + ms.toNat < 2 ^ 64))
  | .listExpiredCb now _ => inferInstanceAs (Decidable (∀ i ∈ m.set, (m.timers i).recurring = true →
      now.toNat + (m.timers i).ms.toNat < 2 ^ 64))
  | .getNextTimer _ => .isTrue trivial
  | .release _ => .isTrue trivial

/-- A one-shot timer and a recurring one; the first is refreshed and given another delay. -/
def twoTimers : List (Call Nat) :=
  [.addTimer 8 5 (some 0) false 0, .addTimer 4 3 (some 1) true 0, .refresh 0 2, .listExpiredCb 4 6,
    .reset 0 3 false 5, .listExpiredCb 7 6]

/-- What its callers see. -/
def twoTimersLog : List (Event Nat) :=
  [.added 0 5 (some (.fn 0)) false 0, .added 1 3 (some (.fn 1)) true 0, .refreshed 0 2 true,
    .expired 4 [(1, some (.fn 1))], .reset 0 3 false 5 true]

/-- In that run the first timer is handed out at seven, two plus three milliseconds having passed. -/
theorem handed_out_in_time_twoTimers : ∃ w,
    (system : System (World Nat) (Call Nat)).Run (fun w c => c.NoWrap w.mgr) twoTimers w ∧
    w.log = twoTimersLog ++ .expired 7 [(0, some (.fn 0)), (1, some (.fn 1))] :: [] ∧
    ¬ Cancelled twoTimersLog 0 ∧ (Added twoTimersLog 0 false → ¬ Collected twoTimersLog 0) ∧
    ∃ start delay, armed 0 twoTimersLog = some (start, delay) ∧ start.toNat + delay.toNat ≤ (7 : UInt64).toNat := by
  have hsome : ((system : System (World Nat) (Call Nat)).exec (fun w c => decide (c.NoWrap w.mgr)) system.init
      twoTimers).isSome = true := by decide
  obtain ⟨w, hw⟩ := Option.isSome_iff_exists.1 hsome
  have hlog : ((system : System (World Nat) (Call Nat)).exec (fun w c => decide (c.NoWrap w.mgr)) system.init
      twoTimers).all
        (fun w => decide (w.log = twoTimersLog ++ .expired 7 [(0, some (.fn 0)), (1, some (.fn 1))] :: [])) = true := by
    decide
  rw [hw] at hlog
  have hlog := of_decide_eq_true hlog
  have hrun : (system : System (World Nat) (Call Nat)).Run (fun w c => c.NoWrap w.mgr) twoTimers w :=
    System.run_of_exec (fun _ _ => of_decide_eq_true) hw
  exact ⟨w, hrun, hlog, (handed_out_in_time hrun hlog).2 0 (by decide)⟩

/-- **The set stays in order.**  For every run, whatever the clock reads and the addresses are: the set is strictly
in the order of the comparator, no timer is in it twice, no `m_next` was written while its timer was in it,
a timer is in it exactly when it was added and neither cancelled nor, when it is not recurring,
collected; and `find` finds every timer that is in it. -/
theorem timers_in_order {calls : List (Call γ)} {w : World γ}
    (hrun : (system : System (World γ) (Call γ)).Run anyStep calls w) :
    (w.mgr.set.Pairwise fun a b => comparator (w.mgr.timers a) (w.mgr.timers b) = true) ∧ w.mgr.set.Nodup ∧
    (∀ write ∈ w.mgr.rekeyed, write.2 = false) ∧
    (∀ i, i ∈ w.mgr.set ↔ ∃ recurring, Added w.log i recurring ∧ ¬ Cancelled w.log i ∧
      ¬ (recurring = false ∧ Collected w.log i)) ∧
    ∀ i ∈ w.mgr.set, w.mgr.find i = some i := by
  have h := history_of_run hrun
  refine ⟨?_, h.wf.sorted.nodup, h.wf.rekeyed, fun i => ?_, fun i hi => h.wf.find_of_mem hi⟩
  · exact List.Pairwise.imp comparator_iff.2 h.wf.sorted
  · constructor
    · intro hi
      have hlt := h.wf.known i hi
      exact ⟨_, (h.added i _).2 ⟨hlt, rfl⟩, (h.mem i hlt).1 hi⟩
    · rintro ⟨recurring, hadd, hcan, hcol⟩
      obtain ⟨hlt, rfl⟩ := (h.added i recurring).1 hadd
      exact (h.mem i hlt).2 ⟨hcan, hcol⟩

/-- In the same run the recurring timer is found at the end, and the other one is gone. -/
theorem timers_in_order_twoTimers : ∃ w, (system : System (World Nat) (Call Nat)).Run anyStep twoTimers w ∧
    w.mgr.set = [1] ∧ w.mgr.find 1 = some 1 := by
  have hsome : ((system : System (World Nat) (Call Nat)).exec (fun _ _ => true) system.init twoTimers).isSome =
      true := by decide
  obtain ⟨w, hw⟩ := Option.isSome_iff_exists.1 hsome
  have hset : ((system : System (World Nat) (Call Nat)).exec (fun _ _ => true) system.init twoTimers).all
      (fun w => decide (w.mgr.set = [1])) = true := by decide
  rw [hw] at hset
  have hset := of_decide_eq_true hset
  have hrun : (system : System (World Nat) (Call Nat)).Run anyStep twoTimers w :=
    System.run_of_exec (fun _ _ _ => trivial) hw
  refine ⟨w, hrun, hset, (timers_in_order hrun).2.2.2.2 1 ?_⟩
  rw [hset]
  exact List.mem_singleton_self 1

end Timers
end Wuchat
