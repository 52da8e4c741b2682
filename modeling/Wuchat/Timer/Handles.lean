/-
# What the calls on a timer answer

`cancel`, `refresh` and `reset` should say true of a timer that is pending and false, with
nothing changed, of one that is not (`Meets`).  Whether a timer is pending is kept twice: it is in
the set, and it has a callback.  The two disagree on timers that were collected, which keep their
callback, and on timers that were added with an empty function; and `reset` asks neither when
there is nothing to change.  `handle_calls_iff` says that these are all the cases.
-/

import Wuchat.Timer.History

namespace Wuchat
namespace Timers

open Foundation

variable {γ : Type}

/-- The call says true of a timer in the set; of another it says false, changes nothing and erases no end
iterator. -/
def Meets (m : Manager γ) (i : Nat) (r : Option (Bool × Manager γ)) : Prop :=
  (i ∈ m.set → ∃ m', r = some (true, m')) ∧ (i ∉ m.set → r = some (false, m))

section

variable {m m' : Manager γ} {i : Nat}

/-- The answer true says that the timer was waiting. -/
theorem meets_true : Meets m i (some (true, m')) ↔ i ∈ m.set := by
  constructor
  · rintro ⟨-, hout⟩
    refine Classical.byContradiction fun hi => ?_
    cases hout hi
  · exact fun hi => ⟨fun _ => ⟨m', rfl⟩, fun hout => absurd hi hout⟩

/-- The answer false says that it was not. -/
theorem meets_false : Meets m i (some (false, m)) ↔ i ∉ m.set := by
  constructor
  · rintro ⟨hin, -⟩ hi
    obtain ⟨m', h⟩ := hin hi
    cases h
  · exact fun hi => ⟨fun hin => absurd hin hi, fun _ => rfl⟩

/-- A timer that does not wait must be answered. -/
theorem not_meets_none (hi : i ∉ m.set) : ¬ Meets m i none := by
  rintro ⟨-, hout⟩
  cases hout hi

end

section

variable {w : World γ} {i : Nat}

/-- A timer with a callback was not cancelled, and was not added with an empty function. -/
theorem History.of_cb (h : History w) (hi : w.Handle i) {cb : Callback γ} (hcb : (w.mgr.timers i).cb = some cb) :
    ¬ Hollow w.log i ∧ ¬ Cancelled w.log i := by
  rw [← not_or, ← h.cb i hi.1, hcb]
  exact Option.some_ne_none cb

/-- A timer without a callback is in the set only when it was added with an empty function. -/
theorem History.of_no_cb (h : History w) (hi : w.Handle i) (hcb : (w.mgr.timers i).cb = none) :
    i ∉ w.mgr.set ↔ (Hollow w.log i → i ∉ w.mgr.set) := by
  constructor
  · exact fun hout _ => hout
  · intro hout
    rcases (h.cb i hi.1).1 hcb with hhollow | hcan
    · exact hout hhollow
    · exact fun hin => ((h.mem i hi.1).1 hin).1 hcan

/-- A call that asks for both: with a callback it follows the set, without one it says false. -/
theorem History.meets_both_iff (h : History w) (hi : w.Handle i) (m' : Manager γ) :
    Meets w.mgr i (if (w.mgr.timers i).cb.isSome ∧ i ∈ w.mgr.set then some (true, m') else some (false, w.mgr)) ↔
      (Hollow w.log i → i ∉ w.mgr.set) := by
  cases hcb : (w.mgr.timers i).cb with
  | some cb =>
    have hnot := (h.of_cb hi hcb).1
    by_cases hin : i ∈ w.mgr.set
    · rw [if_pos ⟨Option.isSome_some, hin⟩, meets_true]
      exact ⟨fun _ hhollow => absurd hhollow hnot, fun _ => hin⟩
    · rw [if_neg fun hc => hin hc.2, meets_false]
      exact ⟨fun _ _ => hin, fun _ => hin⟩
  | none =>
    rw [if_neg (by simp), meets_false]
    exact h.of_no_cb hi hcb

/-- **`cancel`** fails on timers that fired, and on pending ones with an empty function. -/
theorem History.meets_cancel_iff (h : History w) (hi : w.Handle i) : Meets w.mgr i (w.mgr.cancel i) ↔
    (Hollow w.log i → i ∉ w.mgr.set) ∧ (¬ Hollow w.log i → ¬ (Added w.log i false ∧ Collected w.log i)) := by
  have hone : Added w.log i false ↔ (w.mgr.timers i).recurring = false := by
    rw [h.added, and_iff_right hi.1]
  rw [h.wf.cancel_eq hi.alive]
  cases hcb : (w.mgr.timers i).cb with
  | some cb =>
    obtain ⟨hhollow, hcan⟩ := h.of_cb hi hcb
    have hin : i ∈ w.mgr.set ↔ ¬ (Added w.log i false ∧ Collected w.log i) := by
      rw [h.mem i hi.1, hone]
      exact and_iff_right hcan
    rw [if_pos Option.isSome_some]
    split
    · rename_i hset
      rw [meets_true]
      exact ⟨fun _ => ⟨fun hh => absurd hh hhollow, fun _ => hin.1 hset⟩, fun _ => hset⟩
    · rename_i hset
      exact ⟨fun hmeets => absurd hmeets (not_meets_none hset), fun hc => absurd (hin.2 (hc.2 hhollow)) hset⟩
  | none =>
    rw [if_neg (by simp)]
    refine meets_false.trans ((h.of_no_cb hi hcb).trans ⟨fun hout => ⟨hout, fun hnot hcol => ?_⟩, And.left⟩)
    exact h.apart i (((h.cb i hi.1).1 hcb).resolve_left hnot) (hone.1 hcol.1) hcol.2

end

/-- **What the calls answer, exactly.**  In every state a manager can reach and for every timer a caller has:
`cancel` answers as it should unless the timer was collected and is not recurring, or is pending with
an empty function; `refresh` unless the timer is pending with an empty function; and `reset`,
when it has nothing to change, only for a timer that is pending. -/
theorem handle_calls_iff {calls : List (Call γ)} {w : World γ}
    (hrun : (system : System (World γ) (Call γ)).Run anyStep calls w) {i : Nat} (hi : w.Handle i) :
    (Meets w.mgr i (w.mgr.cancel i) ↔ (Hollow w.log i → i ∉ w.mgr.set) ∧
      (¬ Hollow w.log i → ¬ (Added w.log i false ∧ Collected w.log i))) ∧
    (∀ now, Meets w.mgr i (w.mgr.refresh i now) ↔ (Hollow w.log i → i ∉ w.mgr.set)) ∧
    (∀ ms fromNow now, Meets w.mgr i (w.mgr.reset i ms fromNow now) ↔
      if ms = (w.mgr.timers i).ms ∧ fromNow = false then i ∈ w.mgr.set
      else (Hollow w.log i → i ∉ w.mgr.set)) := by
  have h := history_of_run hrun
  refine ⟨h.meets_cancel_iff hi, fun now => ?_, fun ms fromNow now => ?_⟩
  · rw [h.wf.refresh_eq hi.alive]
    exact h.meets_both_iff hi _
  · obtain ⟨tickled, heq⟩ := h.wf.reset_eq hi.alive ms fromNow now
    rw [heq]
    by_cases hsame : ms = (w.mgr.timers i).ms ∧ fromNow = false
    · rw [if_pos ⟨hsame.1, by simp [hsame.2]⟩, if_pos hsame, meets_true]
    · rw [if_neg fun hc => hsame ⟨hc.1, by simpa using hc.2⟩, if_neg hsame]
      exact h.meets_both_iff hi _

/-- A timer of five milliseconds, collected after ten. -/
def firedCalls : List (Call Nat) := [.addTimer 1 5 (some 0) false 0, .listExpiredCb 10 2]

/-- A timer that fired: its caller still has it, it is not in the set, `cancel` erases the end iterator, and
`reset` with its old delay says true. -/
theorem cancel_after_fired : ∃ w, (system : System (World Nat) (Call Nat)).Run anyStep firedCalls w ∧
    w.Handle 0 ∧ 0 ∉ w.mgr.set ∧ w.mgr.cancel 0 = none ∧
    (w.mgr.reset 0 5 false 11).map (·.1) = some true ∧ ¬ Meets w.mgr 0 (w.mgr.cancel 0) := by
  have hsome : ((system : System (World Nat) (Call Nat)).exec (fun _ _ => true) system.init firedCalls).isSome =
      true := by
    decide
  obtain ⟨w, hw⟩ := Option.isSome_iff_exists.1 hsome
  have hfacts : ((system : System (World Nat) (Call Nat)).exec (fun _ _ => true) system.init firedCalls).all
      (fun w => decide (w.Handle 0 ∧ 0 ∉ w.mgr.set ∧ (w.mgr.cancel 0).isNone ∧
        (w.mgr.reset 0 5 false 11).map (·.1) = some true)) = true := by
    decide
  rw [hw] at hfacts
  obtain ⟨hhandle, hout, hcancel, hreset⟩ := of_decide_eq_true hfacts
  have hnone : w.mgr.cancel 0 = none := Option.isNone_iff_eq_none.1 hcancel
  refine ⟨w, System.run_of_exec (fun _ _ _ => trivial) hw, hhandle, hout, hnone, hreset, ?_⟩
  rw [hnone]
  exact not_meets_none hout

/-- The same run: what `reset` with its old delay answers is right only while the timer is pending. -/
theorem handle_calls_iff_fired :
    ∃ w, (system : System (World Nat) (Call Nat)).Run anyStep firedCalls w ∧ w.Handle 0 ∧ (w.mgr.timers 0).ms = 5 ∧
      (∀ now, Meets w.mgr 0 (w.mgr.refresh 0 now) ↔ (Hollow w.log 0 → 0 ∉ w.mgr.set)) ∧
      (∀ now, Meets w.mgr 0 (w.mgr.reset 0 5 false now) ↔ 0 ∈ w.mgr.set) := by
  have hsome : ((system : System (World Nat) (Call Nat)).exec (fun _ _ => true) system.init firedCalls).isSome =
      true := by
    decide
  obtain ⟨w, hw⟩ := Option.isSome_iff_exists.1 hsome
  have hfacts : ((system : System (World Nat) (Call Nat)).exec (fun _ _ => true) system.init firedCalls).all
      (fun w => decide (w.Handle 0 ∧ (w.mgr.timers 0).ms = 5)) = true := by decide
  rw [hw] at hfacts
  obtain ⟨hhandle, hms⟩ := of_decide_eq_true hfacts
  have hrun : (system : System (World Nat) (Call Nat)).Run anyStep firedCalls w :=
    System.run_of_exec (fun _ _ _ => trivial) hw
  have h := handle_calls_iff hrun hhandle
  refine ⟨w, hrun, hhandle, hms, h.2.1, fun now => ?_⟩
  have hreset := h.2.2 5 false now
  rwa [if_pos ⟨hms.symm, rfl⟩] at hreset

end Timers
end Wuchat
