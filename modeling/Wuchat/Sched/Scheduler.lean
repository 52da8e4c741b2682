/-
# The task queue of the scheduler

`scheduler.h`, `scheduler.cpp`: `scheduler(f, thread)` appends a task to `m_fibers` under the mutex.
Each thread runs `Scheduler::run`, a loop that looks for a task under the mutex, takes the first
one that is for any thread or for its own, and executes it without the mutex; when it finds none
it resumes its idle fiber, and it ends when that has terminated.

A step is one critical section, or the return of what a loop has resumed.  What the task does,
and what the idle fiber does, is left open; so is the order of the steps of the callers and
the loops.  The loops are numbered, and `tids` are the ids of their threads.

Left out: `start`, `stop` and what `tickle` does; whether it is called is in the log.  The numbers
of the tasks and the log are there for the proofs.
-/

import Mathlib.Data.List.Basic
import Wuchat.Foundation.System

namespace Wuchat
namespace Sched

open Foundation

/-- `SchedulerTask`: what it executes, and the thread it is for; the thread -1 stands for any. -/
structure SchedulerTask (β : Type*) where
  job : β
  thread : Int
  deriving DecidableEq, Repr

/-- The thread with an id may take the task. -/
def SchedulerTask.Eligible {β : Type*} (tid : Int) (task : SchedulerTask β) : Prop :=
  task.thread = -1 ∨ task.thread = tid

/-- Whether a loop may take a task can be computed. -/
instance {β : Type*} (tid : Int) (task : SchedulerTask β) : Decidable (task.Eligible tid) :=
  inferInstanceAs (Decidable (_ ∨ _))

/-- What is scheduled: a pointer to a fiber, or a function, as `fiber` or `cb` of the task; both can be empty. -/
inductive FiberOrCb
  | fiber (f : Option Nat)
  | cb (f : Option Nat)
  deriving DecidableEq, Repr

/-- `task.fiber || task.cb`. -/
def FiberOrCb.NonEmpty : FiberOrCb → Prop
  | .fiber f => f.isSome
  | .cb f => f.isSome

/-- Whether a task holds work can be computed. -/
instance : (f : FiberOrCb) → Decidable f.NonEmpty
  | .fiber f => inferInstanceAs (Decidable (f.isSome = true))
  | .cb f => inferInstanceAs (Decidable (f.isSome = true))

/-- A task in the queue, with its number.  It is not empty, which is what `run` asserts of a task it takes. -/
structure Queued where
  id : Nat
  task : SchedulerTask FiberOrCb
  nonEmpty : task.job.NonEmpty
  deriving DecidableEq

/-- Where a loop is: at its start, in a task, without one, in its idle fiber, or at its end. -/
inductive Place
  | ready
  | executing (id : Nat)
  | taskless
  | idling
  | ended
  deriving DecidableEq, Repr

/-- A loop of `run`, with the id of its thread. -/
structure Loop where
  tid : Int
  place : Place
  deriving DecidableEq, Repr

/-- The loop is in a task. -/
def Loop.isExecuting (l : Loop) : Bool :=
  match l.place with
  | .executing _ => true
  | _ => false

/-- What a step did; `tickled` says whether `tickle` was called. -/
inductive Event
  | scheduled (id : Nat) (task : SchedulerTask FiberOrCb) (tickled : Bool)
  | ignored (tickled : Bool)
  | taken (loop id : Nat) (tickled : Bool)
  | passed (loop : Nat) (tickled : Bool)
  | finished (loop id : Nat)
  deriving DecidableEq, Repr

/-- `Scheduler`: `m_fibers`, `m_activeThreadCount`, `m_idleThreadCount`, and the loops. -/
structure Scheduler where
  fibers : List Queued
  active : Nat
  idle : Nat
  loops : List Loop
  count : Nat
  log : List Event

/-! ### The search -/

/-- What the search of a loop comes to: whether other threads are to be told, the task, and the queue without it. -/
structure Search (α : Type*) where
  tickleMe : Bool
  task : Option α
  rest : List α

section Search

variable {α β : Type*} (task : α → SchedulerTask β) (tid : Int)

/-- The search of `run` through a queue for the thread with an id. -/
def search : List α → Search α
  | [] => ⟨false, none, []⟩
  | q :: qs =>
    if (task q).thread ≠ -1 ∧ (task q).thread ≠ tid then
      let s := search qs
      ⟨true, s.task, q :: s.rest⟩
    else ⟨decide (qs ≠ []), some q, qs⟩

variable {task} {tid} {q : α}

/-- A task that is not the loop's stays in the queue, and another loop is woken. -/
theorem search_skip {qs : List α} (h : ¬ (task q).Eligible tid) :
    search task tid (q :: qs) = ⟨true, (search task tid qs).task, q :: (search task tid qs).rest⟩ := by
  rw [search, if_pos]
  exact ⟨fun hany => h (.inl hany), fun hown => h (.inr hown)⟩

/-- A task that is the loop's is taken. -/
theorem search_take {qs : List α} (h : (task q).Eligible tid) :
    search task tid (q :: qs) = ⟨decide (qs ≠ []), some q, qs⟩ := by
  rw [search, if_neg]
  rintro ⟨hany, hown⟩
  exact h.elim hany hown

/-- **A task is found** where the queue splits: nothing before it is for the thread. -/
theorem search_some : ∀ {qs : List α}, (search task tid qs).task = some q →
    (task q).Eligible tid ∧ ∃ pre post, qs = pre ++ q :: post ∧ (search task tid qs).rest = pre ++ post ∧
      ∀ x ∈ pre, ¬ (task x).Eligible tid
  | [], h => by cases h
  | x :: qs, h => by
      by_cases hx : (task x).Eligible tid
      · rw [search_take hx] at h ⊢
        obtain rfl : x = q := Option.some.inj h
        exact ⟨hx, [], qs, rfl, rfl, fun y hy => absurd hy List.not_mem_nil⟩
      · rw [search_skip hx] at h ⊢
        obtain ⟨hq, pre, post, hqs, hrest, hpre⟩ := search_some h
        refine ⟨hq, x :: pre, post, congrArg (x :: ·) hqs, congrArg (x :: ·) hrest, fun y hy => ?_⟩
        rcases List.mem_cons.1 hy with rfl | hy
        · exact hx
        · exact hpre y hy

/-- **No task is found** when there is none for the thread, and the queue is as before. -/
theorem search_none : ∀ {qs : List α}, (search task tid qs).task = none →
    (search task tid qs).rest = qs ∧ ∀ x ∈ qs, ¬ (task x).Eligible tid
  | [], _ => ⟨rfl, fun x hx => absurd hx List.not_mem_nil⟩
  | x :: qs, h => by
      by_cases hx : (task x).Eligible tid
      · rw [search_take hx] at h
        cases h
      · rw [search_skip hx] at h ⊢
        obtain ⟨hrest, hqs⟩ := search_none h
        refine ⟨congrArg (x :: ·) hrest, fun y hy => ?_⟩
        rcases List.mem_cons.1 hy with rfl | hy
        · exact hx
        · exact hqs y hy

/-- Other threads are told exactly when the queue has tasks left. -/
theorem search_tickleMe (qs : List α) :
    (search task tid qs).tickleMe = true ↔ (search task tid qs).rest ≠ [] := by
  cases qs with
  | nil => simp [search]
  | cons x qs =>
    by_cases hx : (task x).Eligible tid
    · rw [search_take hx, decide_eq_true_iff]
    · rw [search_skip hx]
      simp

end Search

namespace Scheduler

variable (s : Scheduler)

/-- A scheduler with loops on the threads with some ids, all at their start. -/
def new (tids : List Int) : Scheduler := ⟨[], 0, 0, tids.map fun tid => ⟨tid, .ready⟩, 0, []⟩

/-- `scheduler(f, thread)`. -/
def scheduler (f : FiberOrCb) (thread : Int) : Scheduler :=
  let needTickle := decide (s.fibers = [])
  if h : f.NonEmpty then
    { s with
      fibers := s.fibers ++ [⟨s.count, ⟨f, thread⟩, h⟩]
      count := s.count + 1
      log := s.log ++ [.scheduled s.count ⟨f, thread⟩ needTickle] }
  else { s with log := s.log ++ [.ignored needTickle] }

/-- A loop comes to a place. -/
def go (i : Nat) (tid : Int) (place : Place) : Scheduler := { s with loops := s.loops.set i ⟨tid, place⟩ }

/-- The search of a loop at its start. -/
def pick (i : Nat) : Option Scheduler :=
  match s.loops[i]? with
  | some ⟨tid, .ready⟩ =>
    let found := search Queued.task tid s.fibers
    match found.task with
    | some q => some { s.go i tid (.executing q.id) with
        fibers := found.rest
        active := s.active + 1
        log := s.log ++ [.taken i q.id found.tickleMe] }
    | none => some { s.go i tid .taskless with
        fibers := found.rest
        log := s.log ++ [.passed i found.tickleMe] }
  | _ => none

/-- A loop that has found nothing ends if its idle fiber has terminated, else it resumes it. -/
def rest (i : Nat) (terminated : Bool) : Option Scheduler :=
  match s.loops[i]? with
  | some ⟨tid, .taskless⟩ =>
    some (if terminated then s.go i tid .ended else { s.go i tid .idling with idle := s.idle + 1 })
  | _ => none

/-- What a loop has resumed returns. -/
def back (i : Nat) : Option Scheduler :=
  match s.loops[i]? with
  | some ⟨tid, .executing id⟩ =>
    some { s.go i tid .ready with active := s.active - 1, log := s.log ++ [.finished i id] }
  | some ⟨tid, .idling⟩ => some { s.go i tid .ready with idle := s.idle - 1 }
  | _ => none

end Scheduler

/-- The steps of the callers and the loops. -/
inductive Move
  | scheduler (f : FiberOrCb) (thread : Int)
  | pick (i : Nat)
  | rest (i : Nat) (terminated : Bool)
  | back (i : Nat)
  deriving DecidableEq, Repr

/-- The state after a step. -/
def Scheduler.next (s : Scheduler) : Move → Option Scheduler
  | .scheduler f thread => some (s.scheduler f thread)
  | .pick i => s.pick i
  | .rest i terminated => s.rest i terminated
  | .back i => s.back i

/-- The scheduler as a system. -/
def system (tids : List Int) : System Scheduler Move := ⟨.new tids, Scheduler.next⟩

end Sched
end Wuchat
