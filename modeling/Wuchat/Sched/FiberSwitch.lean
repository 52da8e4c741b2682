/-
# The current fiber

`fiber.cpp` on the thread of a scheduler with `use_call`.  The thread has a main
fiber, which resumes the root fiber in `stop`; the root fiber executes `run` and
resumes the idle fiber and the fibers that are scheduled, and these may resume
others of their own.  Every fiber has an `m_context`, and `swapcontext` saves the
context that executes in one and continues with the other.

A fiber that takes part in scheduling swaps with the root fiber, any other with
the main fiber, but the thread-local `t_fiber`, which `GetThis` and `GetFiberId`
read, is set to the main fiber by every `yield`.  So after a yield or the end of
a fiber that is not the root fiber another fiber executes than `t_fiber` says:
`current_iff`, with the run `main_is_current_in_root` for an instance.
-/

import Mathlib.Logic.Function.Basic
import Wuchat.Foundation.System
import Wuchat.Sched.Fibers

namespace Wuchat
namespace FiberSwitch

open Foundation
open Fibers (State)

/-- The fibers of the thread. -/
inductive FiberId
  | main
  | root
  | idle
  | task (n : Nat)
  deriving DecidableEq, Repr

/-- `t_fiber`, the fibers with their states, whose execution the `m_context` of
each one holds, and whose execution goes on. -/
structure Thread where
  t_fiber : FiberId
  m_state : FiberId → State
  m_context : FiberId → FiberId
  executing : FiberId

/-- A step of the fiber that executes; what a fiber resumes is its choice. -/
inductive Move
  | resume (f : FiberId)
  | yield
  | finish
  | reset (n : Nat)
  deriving DecidableEq, Repr

section

variable (flag : Nat → Bool)

/-- `m_runInScheduler`, which a scheduled fiber has from its constructor. -/
def m_runInScheduler : FiberId → Bool
  | .main => true
  | .root => false
  | .idle => true
  | .task n => flag n

/-- The fiber that `resume` and `yield` swap a fiber with. -/
def partner (f : FiberId) : FiberId := if m_runInScheduler flag f then .root else .main

namespace Thread

/-- After the constructor of the scheduler. -/
def start : Thread where
  t_fiber := .main
  m_state := Function.update (fun _ => .READY) .main .RUNNING
  m_context := id
  executing := .main

variable (s : Thread)

/-- `GetThis`. -/
def GetThis : FiberId := s.t_fiber

/-- `swapcontext(&from->m_context, &to->m_context)`. -/
def swapcontext (saved loaded : FiberId) : Thread :=
  let m_context := Function.update s.m_context saved s.executing
  { s with m_context, executing := m_context loaded }

/-- `f->resume()`; a failed assertion has no next state. -/
def resume (f : FiberId) : Option Thread :=
  if s.m_state f = .READY then
    some ({ s with t_fiber := f, m_state := Function.update s.m_state f .RUNNING }.swapcontext (partner flag f) f)
  else none

/-- `f->yield()`. -/
def yield (f : FiberId) : Option Thread :=
  if s.m_state f = .TERM ∨ s.m_state f = .RUNNING then
    let m_state := if s.m_state f = .RUNNING then Function.update s.m_state f .READY else s.m_state
    some ({ s with t_fiber := .main, m_state }.swapcontext f (partner flag f))
  else none

/-- `f->reset(cb)`: the context begins again. -/
def reset (f : FiberId) : Option Thread :=
  if s.m_state f = .TERM then
    some { s with
      m_state := Function.update s.m_state f .READY
      m_context := Function.update s.m_context f f }
  else none

/-- `MainFunc` after the function of the fiber has returned. -/
def term : Thread := { s with m_state := Function.update s.m_state s.executing .TERM }

/-- The state after a step.  The main fiber resumes the root fiber and nothing
else, and no fiber resumes the main one.  `run` resets the fiber it reuses. -/
def next : Move → Option Thread
  | .resume f => if (s.executing = .main → f = .root) ∧ f ≠ .main then s.resume flag f else none
  | .yield => if s.executing = .main then none else s.yield flag s.GetThis
  | .finish => if s.executing = .main then none else s.term.yield flag s.executing
  | .reset n => if s.executing = .root then s.reset (.task n) else none

end Thread

/-- The thread and its steps. -/
def system : System Thread Move := ⟨.start, Thread.next flag⟩

end

/-- `t_fiber` is the fiber that executes. -/
def Current (s : Thread) : Prop := s.GetThis = s.executing

/-- No fiber yields or ends but the root fiber. -/
def RootOnly (s : Thread) (move : Move) : Prop := move = .yield ∨ move = .finish → s.executing = .root

section

variable {flag : Nat → Bool}

/-- What the contexts hold while only the root fiber yields and ends. -/
structure Linked (flag : Nat → Bool) (s : Thread) : Prop where
  current : s.t_fiber = s.executing
  ready : ∀ f, f ≠ .main → s.m_state f = .READY → s.m_context f = f
  root_busy : s.executing ≠ .main → s.m_state .root ≠ .READY
  root_ne : s.m_context .root ≠ .main
  root_back : s.executing = .root → s.m_context .main = .main
  away : s.executing ≠ .main → s.executing ≠ .root → partner flag s.executing = .main → s.m_context .main ≠ .main

/-- A new thread is linked. -/
theorem linked_start : Linked flag .start where
  current := rfl
  ready _ _ _ := rfl
  root_busy h := absurd rfl h
  root_ne := nofun
  root_back := nofun
  away h := absurd rfl h

/-- The root fiber's partner is the main fiber. -/
theorem partner_root : partner flag .root = .main := rfl

/-- A fiber's partner is the root fiber or the main one. -/
theorem partner_eq (flag : Nat → Bool) (f : FiberId) : partner flag f = .root ∨ partner flag f = .main := by
  rw [partner]
  split
  · exact .inl rfl
  · exact .inr rfl

/-- A scheduled fiber is not resumed by the main fiber. -/
theorem Linked.executing_ne_main {s : Thread} {f : FiberId} (hmain : s.executing = .main → f = .root)
    (hp : partner flag f = .root) : s.executing ≠ .main := fun he => by
  rw [hmain he, partner_root] at hp
  cases hp

/-- **A resumed fiber executes and is the current one.** -/
theorem Linked.resume {s t : Thread} {f : FiberId} (h : Linked flag s) (hmain : s.executing = .main → f = .root)
    (hf : f ≠ .main) (ht : s.resume flag f = some t) : Linked flag t := by
  rw [Thread.resume] at ht
  split at ht
  · rename_i hready
    obtain rfl := Option.some.inj ht
    have hpartner : f ≠ partner flag f := by
      rcases partner_eq flag f with hp | hp
      · rw [hp]
        rintro rfl
        cases hp
      · rwa [hp]
    have hexec : Function.update s.m_context (partner flag f) s.executing f = f := by
      rw [Function.update_of_ne hpartner, h.ready f hf hready]
    -- only the main fiber resumes the root fiber
    have hroot : f = .root → s.executing = .main := fun hfr => by
      refine Decidable.not_not.1 fun hne => ?_
      exact h.root_busy hne (hfr ▸ hready)
    constructor <;> simp only [Thread.swapcontext, hexec]
    case ready =>
      intro g hg hgr
      have hgf : g ≠ f := by
        rintro rfl
        rw [Function.update_self] at hgr
        cases hgr
      rw [Function.update_of_ne hgf] at hgr
      by_cases hgp : g = partner flag f
      · have hp : partner flag f = .root := (partner_eq flag f).resolve_right (hgp ▸ hg)
        rw [hgp, hp] at hgr
        exact absurd hgr (h.root_busy (executing_ne_main hmain hp))
      · rw [Function.update_of_ne hgp, h.ready g hg hgr]
    case root_busy =>
      intro _
      by_cases hfr : f = .root
      · rw [hfr, Function.update_self]
        exact nofun
      · rw [Function.update_of_ne (Ne.symm hfr)]
        exact h.root_busy fun he => hfr (hmain he)
    case root_ne =>
      rcases partner_eq flag f with hp | hp
      · rw [hp, Function.update_self]
        exact executing_ne_main hmain hp
      · rw [hp, Function.update_of_ne (by decide)]
        exact h.root_ne
    case root_back =>
      rintro rfl
      rw [partner_root, Function.update_self, hroot rfl]
    case away =>
      intro _ hfr hp
      rw [hp, Function.update_self]
      exact fun he => hfr (hmain he)
  · cases ht

/-- **The root fiber yields to the main fiber.** -/
theorem Linked.yield_root {s t : Thread} (h : Linked flag s) (he : s.executing = .root)
    (ht : s.yield flag .root = some t) : Linked flag t := by
  rw [Thread.yield] at ht
  split at ht
  · obtain rfl := Option.some.inj ht
    have hexec : Function.update s.m_context .root s.executing .main = .main := by
      rw [Function.update_of_ne (by decide), h.root_back he]
    constructor <;> simp only [Thread.swapcontext, partner_root, hexec]
    case ready =>
      intro f hf hfr
      by_cases hroot : f = .root
      · rw [hroot, Function.update_self, he]
      · rw [Function.update_of_ne hroot]
        refine h.ready f hf ?_
        split at hfr
        · rwa [Function.update_of_ne hroot] at hfr
        · exact hfr
    case root_ne =>
      rw [Function.update_self, he]
      exact nofun
    case root_busy => exact fun hne => absurd rfl hne
    case root_back => exact nofun
    case away => exact fun hne => absurd rfl hne
  · cases ht

/-- The end of the root fiber changes its state only. -/
theorem Linked.term {s : Thread} (h : Linked flag s) (he : s.executing = .root) : Linked flag s.term := by
  constructor <;> simp only [Thread.term]
  case current => exact h.current
  case ready =>
    intro f hf hfr
    refine h.ready f hf ?_
    by_cases hroot : f = s.executing
    · rw [hroot, Function.update_self] at hfr
      cases hfr
    · rwa [Function.update_of_ne hroot] at hfr
  case root_busy =>
    intro _
    rw [he, Function.update_self]
    exact nofun
  case root_ne => exact h.root_ne
  case root_back => exact h.root_back
  case away => exact h.away

/-- A reset fiber leaves the thread linked. -/
theorem Linked.reset {s t : Thread} {n : Nat} (h : Linked flag s) (ht : s.reset (.task n) = some t) :
    Linked flag t := by
  rw [Thread.reset] at ht
  split at ht
  · obtain rfl := Option.some.inj ht
    refine ⟨h.current, fun f hf hfr => ?_, fun he => ?_, ?_, fun he => ?_, fun hm hr hp => ?_⟩
    · by_cases hfn : f = .task n
      · rw [hfn]
        exact Function.update_self ..
      · have hready : s.m_state f = .READY := (Function.update_of_ne hfn _ _).symm.trans hfr
        exact (Function.update_of_ne hfn _ _).trans (h.ready f hf hready)
    · exact h.root_busy he
    · exact h.root_ne
    · exact h.root_back he
    · exact h.away hm hr hp
  · cases ht

/-- **While only the root fiber yields and ends, the contexts stay linked.** -/
theorem Linked.next {s t : Thread} {move : Move} (h : Linked flag s) (hok : RootOnly s move)
    (ht : s.next flag move = some t) : Linked flag t := by
  cases move with
  | resume f =>
    rw [Thread.next] at ht
    split at ht
    · rename_i hcond
      exact h.resume hcond.1 hcond.2 ht
    · cases ht
  | yield =>
    have he := hok (.inl rfl)
    rw [Thread.next, if_neg (by rw [he]; exact nofun), Thread.GetThis, h.current, he] at ht
    exact h.yield_root he ht
  | finish =>
    have he := hok (.inr rfl)
    rw [Thread.next, if_neg (by rw [he]; exact nofun)] at ht
    rw [he] at ht
    exact (h.term he).yield_root he ht
  | reset n =>
    rw [Thread.next] at ht
    split at ht
    · exact h.reset ht
    · cases ht

/-- What `yield` of any fiber leaves: the main fiber is the current one, and the
context that the partner held executes. -/
theorem yield_cases {s t : Thread} {f : FiberId} (ht : s.yield flag f = some t) :
    t.t_fiber = .main ∧ t.executing = Function.update s.m_context f s.executing (partner flag f) := by
  rw [Thread.yield] at ht
  split at ht
  · obtain rfl := Option.some.inj ht
    exact ⟨rfl, rfl⟩
  · cases ht

/-- **After a yield of another fiber than the root fiber the main fiber is current
and does not execute.** -/
theorem Linked.yield_away {s t : Thread} (h : Linked flag s) (hm : s.executing ≠ .main) (hr : s.executing ≠ .root)
    (m_state : FiberId → State) (ht : { s with m_state }.yield flag s.executing = some t) : ¬Current t := by
  obtain ⟨hcur, hexec⟩ := yield_cases ht
  rw [Current, Thread.GetThis, hcur, hexec]
  rcases partner_eq flag s.executing with hp | hp
  · rw [hp, Function.update_of_ne (Ne.symm hr)]
    exact Ne.symm h.root_ne
  · rw [hp, Function.update_of_ne (Ne.symm hm)]
    exact Ne.symm (h.away hm hr hp)

/-- **When `t_fiber` is the fiber that executes.** In a run it is at every moment
exactly when no fiber yields or ends in the run but the root fiber. -/
theorem current_iff {ls : List Move} {s : Thread} (h : (system flag).Run anyStep ls s) :
    (∀ ls' s', ls' <+: ls → (system flag).Run anyStep ls' s' → Current s') ↔
      (system flag).Run RootOnly ls s := by
  have hlinked : ∀ ls s, (system flag).Run RootOnly ls s → Linked flag s := fun ls s hrun =>
    hrun.invariant (I := fun _ s => Linked flag s) linked_start fun _ _ _ _ hi hok hn => hi.next hok hn
  refine System.Run.always_iff (fun ls s hrun => (hlinked ls s hrun).current) ?_ h
  intro ls s move t hrun hbad hn
  have hi := hlinked ls s hrun
  rw [RootOnly, Classical.not_imp] at hbad
  obtain ⟨hmove, hr⟩ := hbad
  rcases hmove with rfl | rfl
  · change s.next flag .yield = some t at hn
    rw [Thread.next] at hn
    split at hn
    · cases hn
    · rename_i hm
      rw [Thread.GetThis, hi.current] at hn
      exact hi.yield_away hm hr s.m_state hn
  · change s.next flag .finish = some t at hn
    rw [Thread.next] at hn
    split at hn
    · cases hn
    · rename_i hm
      exact hi.yield_away hm hr _ hn

end

/-- The main fiber resumes the root fiber, which yields. -/
theorem current_iff_root_yields : ∃ s, (system fun _ => true).Run anyStep [.resume .root, .yield] s ∧
    ((∀ ls' s', ls' <+: [.resume .root, .yield] → (system fun _ => true).Run anyStep ls' s' → Current s') ↔
      (system fun _ => true).Run RootOnly [.resume .root, .yield] s) :=
  have h : (system fun _ => true).Run anyStep [.resume .root, .yield] _ :=
    (System.Run.start.step trivial rfl).step trivial rfl
  ⟨_, h, current_iff h⟩

/-- The main fiber resumes the root fiber, which resumes a scheduled fiber, which
yields: the root fiber executes, and the main fiber is the current one. -/
theorem main_is_current_in_root : ∃ s, (system fun _ => true).Run anyStep
    [.resume .root, .resume (.task 0), .yield] s ∧ s.GetThis = .main ∧ s.executing = .root ∧ ¬Current s :=
  have h : (system fun _ => true).Run anyStep [.resume .root, .resume (.task 0), .yield] _ :=
    ((System.Run.start.step trivial rfl).step trivial rfl).step trivial rfl
  ⟨_, h, rfl, rfl, (nofun : FiberId.main ≠ FiberId.root)⟩

end FiberSwitch
end Wuchat
