/-
# Labelled transition systems and their runs

A system has one initial state and a partial step function.  The label of a
step names everything the step leaves open: who moves, what the environment
answers, how much of a buffer is taken.  A step is then a function of its
label, a run is the list of its labels, and a concrete run is evaluated
(`System.exec`).

A history grows at its end.  `Along P log` says that every event of `log` met `P`
together with the events before it, and `Along.at` reads that off at a position.

Runs come with a condition `ok` on their steps.  `System.Run ok ls s` says that
the labels `ls` lead from the initial state to `s` and that every step on the
way met `ok` in the state it started from; `anyStep` is the condition every step
meets.  What holds along a run is proved by `System.Run.invariant`, for a
predicate of the labels so far and the state reached.
-/

import Mathlib.Tactic.TypeStar

namespace Wuchat
namespace Foundation

/-- A labelled transition system: `next s l` is the state after the step `l`, or
`none` when `s` has no such step. -/
structure System (σ ℓ : Type*) where
  init : σ
  next : σ → ℓ → Option σ

/-- The condition every step meets. -/
def anyStep {σ ℓ : Type*} (_ : σ) (_ : ℓ) : Prop := True

namespace System

variable {σ ℓ : Type*} {S : System σ ℓ} {ok : σ → ℓ → Prop}

/-- The runs of a system whose steps all meet `ok`, with their labels. -/
inductive Run (S : System σ ℓ) (ok : σ → ℓ → Prop) : List ℓ → σ → Prop
  | start : Run S ok [] S.init
  | step {ls : List ℓ} {s t : σ} {l : ℓ} :
      Run S ok ls s → ok s l → S.next s l = some t → Run S ok (ls ++ [l]) t

/-- **The invariant rule for runs.**  What holds of the empty run and is kept by
every step that meets the condition holds of every run. -/
theorem Run.invariant {I : List ℓ → σ → Prop} (hinit : I [] S.init)
    (hstep : ∀ ls s l t, I ls s → ok s l → S.next s l = some t → I (ls ++ [l]) t)
    {ls : List ℓ} {s : σ} (h : S.Run ok ls s) : I ls s := by
  induction h with
  | start => exact hinit
  | step _ hok hn ih => exact hstep _ _ _ _ ih hok hn

/-- A run under a condition is a run under every weaker one. -/
theorem Run.mono {ok' : σ → ℓ → Prop} (hle : ∀ s l, ok s l → ok' s l)
    {ls : List ℓ} {s : σ} (h : S.Run ok ls s) : S.Run ok' ls s := by
  induction h with
  | start => exact .start
  | step _ hok hn ih => exact .step ih (hle _ _ hok) hn

/-- The same for a condition that is weaker in the states the runs reach. -/
theorem Run.mono_of_run {ok' : σ → ℓ → Prop} (hle : ∀ ls s l, S.Run ok ls s → ok s l → ok' s l)
    {ls : List ℓ} {s : σ} (h : S.Run ok ls s) : S.Run ok' ls s := by
  induction h with
  | start => exact .start
  | step h hok hn ih => exact .step ih (hle _ _ _ h hok) hn

/-- Two runs with the same labels are one run, and its steps meet both conditions. -/
theorem Run.and {ok' : σ → ℓ → Prop} {ls : List ℓ} {s : σ} (h : S.Run ok ls s) :
    ∀ {t : σ}, S.Run ok' ls t → t = s ∧ S.Run (fun s l => ok s l ∧ ok' s l) ls s := by
  induction h with
  | start =>
    intro t ht
    generalize hls : ([] : List ℓ) = ls at ht
    cases ht with
    | start => exact ⟨rfl, .start⟩
    | step _ _ _ => exact absurd hls.symm (List.append_ne_nil_of_right_ne_nil _ (List.cons_ne_nil _ _))
  | @step ls s u l _ hok hn ih =>
    intro t ht
    generalize hls : ls ++ [l] = ls' at ht
    cases ht with
    | start => exact absurd hls (List.append_ne_nil_of_right_ne_nil _ (List.cons_ne_nil _ _))
    | step ht' hok' hn' =>
      obtain ⟨rfl, hl⟩ := List.append_inj' hls rfl
      obtain rfl := (List.cons.inj hl).1
      obtain ⟨rfl, hboth⟩ := ih ht'
      exact ⟨Option.some.inj (hn'.symm.trans hn), hboth.step ⟨hok, hok'⟩ hn⟩

/-- The first part of a run is a run. -/
theorem Run.left {ls ls' : List ℓ} {s : σ} (h : S.Run ok (ls ++ ls') s) : ∃ t, S.Run ok ls t := by
  generalize hl : ls ++ ls' = l at h
  induction h generalizing ls' with
  | start => exact ⟨S.init, (List.append_eq_nil_iff.1 hl).1 ▸ .start⟩
  | @step l₀ s t e h hok hn ih =>
    rcases List.eq_nil_or_concat ls' with rfl | ⟨post, e', rfl⟩
    · rw [List.append_nil] at hl
      exact ⟨t, hl ▸ h.step hok hn⟩
    · rw [List.concat_eq_append, ← List.append_assoc] at hl
      exact ih (List.append_inj' hl rfl).1

/-- **What always holds, exactly when.**  If runs under `ok` reach only safe states, and a step that fails
`ok` leads from them to one that is not, then a run stays safe if and only if all its steps meet `ok`. -/
theorem Run.always_iff {Safe : σ → Prop} (hsafe : ∀ ls s, S.Run ok ls s → Safe s)
    (hexact : ∀ ls s l t, S.Run ok ls s → ¬ ok s l → S.next s l = some t → ¬ Safe t) {ls : List ℓ} {s : σ}
    (h : S.Run anyStep ls s) :
    (∀ ls' s', ls' <+: ls → S.Run anyStep ls' s' → Safe s') ↔ S.Run ok ls s := by
  constructor
  · intro hall
    induction h with
    | start => exact .start
    | @step ls s t l h _ hn ih =>
      have hrun := ih fun ls' s' hpre => hall ls' s' (hpre.trans (List.prefix_append ls [l]))
      by_cases hok : ok s l
      · exact hrun.step hok hn
      · exact absurd (hall _ _ List.prefix_rfl (h.step trivial hn)) (hexact ls s l t hrun hok hn)
  · rintro hrun ls' s' ⟨post, rfl⟩ h'
    obtain ⟨t, ht⟩ := hrun.left
    obtain ⟨rfl, -⟩ := h'.and ht
    exact hsafe _ _ ht

/-- Evaluate a run from a state, stopping at a step that fails the test `g`. -/
def exec (S : System σ ℓ) (g : σ → ℓ → Bool) : σ → List ℓ → Option σ
  | s, [] => some s
  | s, l :: ls => if g s l then (S.next s l).bind fun t => exec S g t ls else none

/-- An evaluated run that starts at the end of a run extends it. -/
theorem run_append_of_exec {g : σ → ℓ → Bool} (hg : ∀ s l, g s l = true → ok s l) :
    ∀ {ls ls' : List ℓ} {s t : σ}, S.Run ok ls s → S.exec g s ls' = some t →
      S.Run ok (ls ++ ls') t
  | ls, [], s, t, hs, h => by
      obtain rfl := Option.some.inj h
      rwa [List.append_nil]
  | ls, l :: ls', s, t, hs, h => by
      rw [exec] at h
      split at h
      · rename_i hl
        obtain ⟨u, hu, ht⟩ := Option.bind_eq_some_iff.1 h
        rw [List.append_cons]
        exact run_append_of_exec hg (hs.step (hg s l hl) hu) ht
      · cases h

/-- **An evaluated run is a run.** -/
theorem run_of_exec {g : σ → ℓ → Bool} (hg : ∀ s l, g s l = true → ok s l) {ls : List ℓ} {t : σ}
    (h : S.exec g S.init ls = some t) : S.Run ok ls t :=
  run_append_of_exec hg .start h

/-- A run is evaluated step by step. -/
theorem exec_cons {g : σ → ℓ → Bool} {s t : σ} {l : ℓ} {ls : List ℓ} (hg : g s l = true) (hn : S.next s l = some t) :
    S.exec g s (l :: ls) = S.exec g t ls := by
  rw [exec, if_pos hg, hn, Option.bind_some]

/-- One run is evaluated behind another. -/
theorem exec_append {g : σ → ℓ → Bool} : ∀ {ls ls' : List ℓ} {s t u : σ}, S.exec g s ls = some t →
    S.exec g t ls' = some u → S.exec g s (ls ++ ls') = some u
  | [], _, _, _, _, h, h' => Option.some.inj h ▸ h'
  | l :: ls, ls', s, t, u, h, h' => by
      obtain ⟨hg, h⟩ := Option.ite_none_right_eq_some.mp h
      obtain ⟨v, hv, h⟩ := Option.bind_eq_some_iff.mp h
      rw [List.cons_append, exec_cons hg hv]
      exact exec_append h h'

/-- What every step keeps holds at the end of an evaluated run. -/
theorem exec_invariant {g : σ → ℓ → Bool} {P : σ → Prop} (hstep : ∀ s l t, P s → S.next s l = some t → P t) :
    ∀ {ls : List ℓ} {s t : σ}, P s → S.exec g s ls = some t → P t
  | [], _, _, hs, h => Option.some.inj h ▸ hs
  | l :: ls, s, t, hs, h => by
      obtain ⟨-, h⟩ := Option.ite_none_right_eq_some.mp h
      obtain ⟨u, hu, ht⟩ := Option.bind_eq_some_iff.mp h
      exact exec_invariant hstep (hstep s l u hs hu) ht

/-- **Steps that use something up.**  If every step that meets the test keeps `P` and makes the measure `μ` smaller,
then no more such steps follow one another than the measure allows. -/
theorem exec_le_measure {g : σ → ℓ → Bool} {P : σ → Prop} {μ : σ → Nat}
    (hstep : ∀ s l t, P s → g s l = true → S.next s l = some t → P t ∧ μ t < μ s) :
    ∀ {ls : List ℓ} {s t : σ}, P s → S.exec g s ls = some t → P t ∧ ls.length + μ t ≤ μ s
  | [], s, t, hs, h => by
      obtain rfl := Option.some.inj h
      exact ⟨hs, Nat.le_of_eq (Nat.zero_add _)⟩
  | l :: ls, s, t, hs, h => by
      rw [exec] at h
      split at h
      · rename_i hl
        obtain ⟨u, hu, ht⟩ := Option.bind_eq_some_iff.1 h
        obtain ⟨hPu, hlt⟩ := hstep s l u hs hl hu
        obtain ⟨hPt, hle⟩ := exec_le_measure hstep hPu ht
        refine ⟨hPt, ?_⟩
        rw [List.length_cons]
        omega
      · cases h

end System

/-- A history that has got longer by one event, cut in two: the second part is empty or ends with that event. -/
theorem snoc_eq_append {ε : Type*} {log pre post : List ε} {e : ε} (h : log ++ [e] = pre ++ post) :
    (post = [] ∧ pre = log ++ [e]) ∨ ∃ post', post = post' ++ [e] ∧ log = pre ++ post' := by
  rcases List.eq_nil_or_concat post with rfl | ⟨post', e', rfl⟩
  · exact .inl ⟨rfl, by rw [h, List.append_nil]⟩
  · rw [List.concat_eq_append, ← List.append_assoc] at h
    obtain ⟨hlog, he⟩ := List.append_inj' h rfl
    obtain rfl := (List.cons.inj he).1
    exact .inr ⟨post', List.concat_eq_append, hlog⟩

/-- The same for a cut around an event: it is the new one, or one of those before. -/
theorem snoc_eq_append_cons {ε : Type*} {log pre post : List ε} {e x : ε} (h : log ++ [e] = pre ++ x :: post) :
    (post = [] ∧ x = e ∧ pre = log) ∨ ∃ post', post = post' ++ [e] ∧ log = pre ++ x :: post' := by
  rcases snoc_eq_append (h.trans (List.append_cons pre x post)) with ⟨rfl, hpre⟩ | ⟨post', rfl, rfl⟩
  · obtain ⟨rfl, hx⟩ := List.append_inj' hpre rfl
    exact .inl ⟨rfl, (List.cons.inj hx).1, rfl⟩
  · exact .inr ⟨post', rfl, (List.append_cons ..).symm⟩

/-- Every event of a history met `P`, given the events before it. -/
inductive Along {ε : Type*} (P : List ε → ε → Prop) : List ε → Prop
  | nil : Along P []
  | snoc {log : List ε} {e : ε} : Along P log → P log e → Along P (log ++ [e])

/-- An event of the history and what stood before it. -/
theorem Along.at {ε : Type*} {P : List ε → ε → Prop} {log : List ε} (h : Along P log) :
    ∀ {pre post : List ε} {e : ε}, log = pre ++ e :: post → P pre e := by
  induction h with
  | nil => intro pre post e he; simp at he
  | @snoc log e' _ hP ih =>
    intro pre post e he
    rcases snoc_eq_append_cons he with ⟨-, rfl, rfl⟩ | ⟨post', -, hold⟩
    · exact hP
    · exact ih hold

/-- A part of a history from its start. -/
theorem Along.left {ε : Type*} {P : List ε → ε → Prop} {log post : List ε}
    (h : Along P (log ++ post)) : Along P log := by
  generalize hl : log ++ post = l at h
  induction h generalizing post with
  | nil => rw [(List.append_eq_nil_iff.1 hl).1]; exact .nil
  | @snoc l' e h' hP ih =>
    rcases snoc_eq_append hl.symm with ⟨-, hlog⟩ | ⟨post', -, hold⟩
    · exact hlog ▸ h'.snoc hP
    · exact ih hold.symm

end Foundation
end Wuchat
