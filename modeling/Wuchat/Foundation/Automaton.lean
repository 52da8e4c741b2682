/-
# Runs of an automaton with a dead state

`bs.foldl step s` is the state after the characters `bs`.  A dead state is one
that nothing leaves, so that a run which does not end there was never in it
(`step_ne_of_foldl_ne`).  A state that a class of characters does not leave takes
the longest part of them, and what comes behind begins with another character
(`exists_stay`): read in this way a run that is not dead says how its characters
are put together.
-/

import Mathlib.Tactic.TypeStar

namespace Wuchat
namespace Foundation

variable {σ α : Type*} {step : σ → α → σ} {dead : σ}

/-- Nothing leaves a dead state. -/
theorem foldl_dead (hdead : ∀ c, step dead c = dead) (bs : List α) : bs.foldl step dead = dead := by
  induction bs with
  | nil => rfl
  | cons c bs ih => rw [List.foldl_cons, hdead, ih]

/-- A run that does not end in the dead state does not enter it. -/
theorem step_ne_of_foldl_ne (hdead : ∀ c, step dead c = dead) {s : σ} {c : α} {bs : List α}
    (h : (c :: bs).foldl step s ≠ dead) : step s c ≠ dead := by
  intro hc
  rw [List.foldl_cons, hc, foldl_dead hdead] at h
  exact h rfl

/-- **The part of a run that stays in a state**, and what is behind it. -/
theorem exists_stay {s : σ} {p : α → Bool} (hstay : ∀ c, p c = true → step s c = s) (bs : List α) :
    ∃ a b, bs = a ++ b ∧ (∀ c ∈ a, p c = true) ∧ (b = [] ∨ ∃ c t, b = c :: t ∧ p c = false) ∧
      bs.foldl step s = b.foldl step s := by
  induction bs with
  | nil => exact ⟨[], [], rfl, by simp, .inl rfl, rfl⟩
  | cons c bs ih =>
    by_cases hc : p c = true
    · obtain ⟨a, b, hbs, ha, hb, hrun⟩ := ih
      refine ⟨c :: a, b, by rw [hbs, List.cons_append], List.forall_mem_cons.mpr ⟨hc, ha⟩, hb, ?_⟩
      rw [List.foldl_cons, hstay c hc, hrun]
    · exact ⟨[], c :: bs, rfl, by simp, .inr ⟨c, bs, rfl, Bool.eq_false_iff.mpr hc⟩, rfl⟩

end Foundation
end Wuchat
