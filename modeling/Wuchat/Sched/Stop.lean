/-
# Stopping an IOManager

`scheduler.cpp`, `iomanager.cpp`: each worker thread runs `Scheduler::run`, which executes
tasks, and when it finds none it resumes its idle fiber, `IOManager::idle`.  The idle fiber
asks `stopping`, and if that says no it waits in `epoll_wait`, schedules the callbacks of
the timers that have expired, handles the events and yields.  `stopping` makes three tests
one after another: that there is no timer, that no event is pending, and, under the mutex of
the scheduler, that `stop` was called, the queue is empty and no worker executes a task.
When all three hold the idle fiber ends, and its worker ends when it finds no task after
that.

Any number of workers run beside a thread that adds tasks, timers and events and then calls
`stop`; a task may add and cancel them too.  The three tests are separate steps.  The queue
is the list of the threads its tasks are for, and timers and events are only counted.  The
scheduling of a fiber and the count of the event it waited for change in one step.

A worker that has seen no timer does not look again, so a timer that is added while it makes
its other tests, and no other worker is there, is left when the workers have ended
(`timer_left_behind`).  Nothing is left in every run in which a timer is added only while
some worker has its test for timers before it, and an event only while some worker has its
test for events before it (`nothing_left_behind`).
-/

import Mathlib.Data.List.Basic
import Wuchat.Foundation.Places
import Wuchat.Foundation.System

namespace Wuchat
namespace Stop

open Foundation

/-- Where a worker is: at the start of its loop, in a task, without one; before each of the three
tests of `stopping`; in `epoll_wait`; with callbacks of timers still to schedule; or at its end. -/
inductive Place
  | scan
  | executing
  | taskless
  | timerTest
  | eventTest
  | stopTest
  | waiting
  | processing (cbs : Nat)
  | exited
  deriving DecidableEq, Repr

/-- A worker, with the id of its thread, and whether its idle fiber has terminated. -/
structure Worker where
  tid : Int
  idleTerm : Bool
  place : Place
  deriving DecidableEq, Repr

/-- `m_fibers`, `m_activeThreadCount`, `m_stopping`, the size of `m_timers`, `m_pendingEventCount`,
and the workers. -/
structure IOManager where
  fibers : List Int
  active : Nat
  stopping : Bool
  timers : Nat
  pending : Nat
  workers : List Worker
  deriving DecidableEq, Repr

namespace IOManager

variable (s : IOManager)

/-- An `IOManager` with workers on the threads with some ids. -/
def new (tids : List Int) : IOManager := ⟨[], 0, false, 0, 0, tids.map fun tid => ⟨tid, false, .scan⟩⟩

/-- A worker comes to another state. -/
def go (i : Nat) (w : Worker) : IOManager := { s with workers := s.workers.set i w }

/-- `scheduler(f, thread)`. -/
def scheduler (thread : Int) : IOManager := { s with fibers := s.fibers ++ [thread] }

/-- The thread with an id may take a task for a thread. -/
def eligible (tid thread : Int) : Bool := decide (thread = -1 ∨ thread = tid)

/-- A worker looks for a task. -/
def pick (i : Nat) (w : Worker) : IOManager :=
  if s.fibers.any (eligible w.tid) then
    { s with fibers := s.fibers.eraseP (eligible w.tid), active := s.active + 1 }.go i
    { w with place := .executing }
  else s.go i { w with place := .taskless }

/-- A worker without a task ends, or resumes its idle fiber. -/
def rest (i : Nat) (w : Worker) : IOManager :=
  s.go i { w with place := if w.idleTerm then .exited else .timerTest }

/-- `getNextTimer() == ~0ull`. -/
def timerTest (i : Nat) (w : Worker) : IOManager :=
  s.go i { w with place := if s.timers = 0 then .eventTest else .waiting }

/-- `m_pendingEventCount == 0`. -/
def eventTest (i : Nat) (w : Worker) : IOManager :=
  s.go i { w with place := if s.pending = 0 then .stopTest else .waiting }

/-- `Scheduler::stopping()`: the idle fiber ends if it says yes. -/
def stopTest (i : Nat) (w : Worker) : IOManager :=
  if s.stopping = true ∧ s.fibers = [] ∧ s.active = 0 then
    s.go i { w with idleTerm := true, place := .scan }
  else s.go i { w with place := .waiting }

/-- Whoever moves may add and cancel: the controlling thread before `stop`, or the task that a
worker executes. -/
def mayAct : Option Nat → Bool
  | none => !s.stopping
  | some i => s.workers[i]?.any fun w => decide (w.place = .executing)

end IOManager

/-- The steps of the workers, and what the controlling thread (`none`) and the tasks do. -/
inductive Move
  | addTask (who : Option Nat) (thread : Int)
  | addTimer (who : Option Nat)
  | addEvent (who : Option Nat)
  | cancelTimer (who : Option Nat)
  | cancelEvent (who : Option Nat)
  | delEvent (who : Option Nat)
  | stop
  | pick (i : Nat)
  | finish (i : Nat)
  | rest (i : Nat)
  | test (i : Nat)
  | collect (i cbs left : Nat)
  | schedule (i : Nat)
  | trigger (i : Nat)
  | yield (i : Nat)
  deriving DecidableEq, Repr

/-- The state after a step. -/
def IOManager.next (s : IOManager) : Move → Option IOManager
  | .addTask who thread => if s.mayAct who then some (s.scheduler thread) else none
  | .addTimer who => if s.mayAct who then some { s with timers := s.timers + 1 } else none
  | .addEvent who => if s.mayAct who then some { s with pending := s.pending + 1 } else none
  | .cancelTimer who => if s.mayAct who then some { s with timers := s.timers - 1 } else none
  | .cancelEvent who =>
    if s.mayAct who ∧ s.pending ≠ 0 then
      some ({ s with pending := s.pending - 1 }.scheduler (-1))
    else none
  | .delEvent who => if s.mayAct who then some { s with pending := s.pending - 1 } else none
  | .stop => if s.stopping then none else some { s with stopping := true }
  | .pick i =>
    match s.workers[i]? with
    | some ⟨tid, idleTerm, .scan⟩ => some (s.pick i ⟨tid, idleTerm, .scan⟩)
    | _ => none
  | .finish i =>
    match s.workers[i]? with
    | some ⟨tid, idleTerm, .executing⟩ =>
        some ({ s with active := s.active - 1 }.go i ⟨tid, idleTerm, .scan⟩)
    | _ => none
  | .rest i =>
    match s.workers[i]? with
    | some ⟨tid, idleTerm, .taskless⟩ => some (s.rest i ⟨tid, idleTerm, .taskless⟩)
    | _ => none
  | .test i =>
    match s.workers[i]? with
    | some ⟨tid, idleTerm, .timerTest⟩ => some (s.timerTest i ⟨tid, idleTerm, .timerTest⟩)
    | some ⟨tid, idleTerm, .eventTest⟩ => some (s.eventTest i ⟨tid, idleTerm, .eventTest⟩)
    | some ⟨tid, idleTerm, .stopTest⟩ => some (s.stopTest i ⟨tid, idleTerm, .stopTest⟩)
    | _ => none
  | .collect i cbs left =>
    match s.workers[i]? with
    | some ⟨tid, idleTerm, .waiting⟩ =>
      -- recurring timers stay
      if left ≤ s.timers ∧ s.timers ≤ left + cbs then
        some ({ s with timers := left }.go i ⟨tid, idleTerm, .processing cbs⟩)
      else none
    | _ => none
  | .schedule i =>
    match s.workers[i]? with
    | some ⟨tid, idleTerm, .processing (cbs + 1)⟩ =>
        some ((s.scheduler (-1)).go i ⟨tid, idleTerm, .processing cbs⟩)
    | _ => none
  | .trigger i =>
    match s.workers[i]? with
    | some ⟨_, _, .processing 0⟩ =>
      if s.pending ≠ 0 then some ({ s with pending := s.pending - 1 }.scheduler (-1)) else none
    | _ => none
  | .yield i =>
    match s.workers[i]? with
    | some ⟨tid, idleTerm, .processing 0⟩ => some (s.go i ⟨tid, idleTerm, .scan⟩)
    | _ => none

/-- The workers and the controlling thread as a system. -/
def system (tids : List Int) : System IOManager Move := ⟨.new tids, IOManager.next⟩

/-- All worker loops have ended. -/
def IOManager.Ended (s : IOManager) : Prop := ∀ w ∈ s.workers, w.place = .exited

/-- Nothing is left. -/
def IOManager.NothingLeft (s : IOManager) : Prop := s.fibers = [] ∧ s.timers = 0 ∧ s.pending = 0

/-- The idle fiber of the worker has not ended, and it has its test for timers before it. -/
def Worker.LooksForTimers (w : Worker) : Prop :=
  w.idleTerm = false ∧ w.place ≠ .eventTest ∧ w.place ≠ .stopTest

/-- The idle fiber of the worker has not ended, and it has its test for events before it. -/
def Worker.LooksForEvents (w : Worker) : Prop := w.idleTerm = false ∧ w.place ≠ .stopTest

/-- A timer and an event are added only while some worker has the test for them before it. -/
def Move.Seen (s : IOManager) : Move → Prop
  | .addTimer _ => ∃ w ∈ s.workers, w.LooksForTimers
  | .addEvent _ => ∃ w ∈ s.workers, w.LooksForEvents
  | _ => True

/-! ### What the steps keep -/

/-- The worker executes a task. -/
def Worker.isExecuting (w : Worker) : Bool := decide (w.place = .executing)

/-- The worker is not in its idle fiber. -/
def Worker.InRun (w : Worker) : Prop :=
  match w.place with
  | .scan | .executing | .taskless | .exited => True
  | _ => False

/-- What holds while every timer and event that is added is seen: as long as there is one, some
worker has the test for it before it; and once all idle fibers have ended there is no task and no
worker executes one. -/
structure Kept (s : IOManager) : Prop where
  timers : s.timers ≠ 0 → ∃ w ∈ s.workers, w.LooksForTimers
  events : s.pending ≠ 0 → ∃ w ∈ s.workers, w.LooksForEvents
  ended : (∀ w ∈ s.workers, w.idleTerm = true) → s.stopping = true ∧ s.fibers = [] ∧ s.active = 0
  inRun : ∀ w ∈ s.workers, w.idleTerm = true → w.InRun
  exited : ∀ w ∈ s.workers, w.place = .exited → w.idleTerm = true
  active : s.active = s.workers.countP Worker.isExecuting

section

variable {s t : IOManager} {move : Move} {i : Nat} {w w' : Worker} {fibers : List Int}
    {active timers pending : Nat}

/-- New workers have nothing to see. -/
theorem Kept.new {tids : List Int} (htids : tids ≠ []) : Kept (IOManager.new tids) := by
  have hw : ∀ w ∈ (IOManager.new tids).workers, w.idleTerm = false ∧ w.place = .scan := by
    intro w hw
    obtain ⟨tid, -, rfl⟩ := List.mem_map.1 hw
    exact ⟨rfl, rfl⟩
  refine ⟨fun h => absurd rfl h, fun h => absurd rfl h, fun hall => ?_,
    fun w hw' hterm => ?_, fun w hw' hp => ?_, ?_⟩
  · obtain ⟨tid, htid⟩ := List.exists_mem_of_ne_nil tids htids
    have hmem : (⟨tid, false, .scan⟩ : Worker) ∈ (IOManager.new tids).workers :=
      List.mem_map_of_mem htid
    cases hall _ hmem
  · cases (hw w hw').1.symm.trans hterm
  · cases (hw w hw').2.symm.trans hp
  · symm
    refine List.countP_eq_zero.2 fun w hw' hexec => ?_
    cases (hw w hw').2.symm.trans (of_decide_eq_true hexec)

/-- A worker that executes a task is counted. -/
theorem Kept.active_pos (h : Kept s) (hw : w ∈ s.workers) (hexec : w.place = .executing) :
    s.active ≠ 0 := by
  have hpos : 0 < s.workers.countP Worker.isExecuting :=
    List.countP_pos_iff.2 ⟨w, hw, decide_eq_true hexec⟩
  rw [← h.active] at hpos
  omega

/-- Once all idle fibers have ended nobody adds anything. -/
theorem Kept.not_mayAct (h : Kept s) (hall : ∀ w ∈ s.workers, w.idleTerm = true) (who : Option Nat) :
    s.mayAct who ≠ true := by
  obtain ⟨hstop, -, hactive⟩ := h.ended hall
  intro hact
  cases who with
  | none => simp [IOManager.mayAct, hstop] at hact
  | some i =>
    rw [IOManager.mayAct, Option.any_eq_true_iff_get] at hact
    obtain ⟨hsome, hexec⟩ := hact
    exact h.active_pos (List.mem_of_getElem? (Option.some_get hsome).symm)
      (of_decide_eq_true hexec) hactive

/-- **A worker moves** within its idle fiber or outside it, with what it does to the queue and the
counters. -/
theorem Kept.go (h : Kept s) (hi : s.workers[i]? = some w) (hterm : w'.idleTerm = w.idleTerm)
    (htimers : timers ≠ 0 → s.timers ≠ 0 ∧ (w.LooksForTimers → w'.LooksForTimers))
    (hevents : pending ≠ 0 → s.pending ≠ 0 ∧ (w.LooksForEvents → w'.LooksForEvents))
    (hended : w.idleTerm = true → s.fibers = [] → s.active = 0 → fibers = [] ∧ active = 0)
    (hrun : w'.idleTerm = true → w'.InRun) (hexited : w'.place = .exited → w'.idleTerm = true)
    (hactive : active + (if w.isExecuting then 1 else 0) = s.active + if w'.isExecuting then 1 else 0) :
    Kept ({ s with fibers, active, timers, pending }.go i w') := by
  have hlt := (List.getElem?_eq_some_iff.1 hi).1
  have hw' : w' ∈ s.workers.set i w' := List.mem_of_getElem? (List.getElem?_set_self hlt)
  refine ⟨fun hne => ?_, fun hne => ?_, fun hall => ?_, forall_mem_set h.inRun hrun,
    forall_mem_set h.exited hexited, ?_⟩
  · exact exists_mem_set hi (h.timers (htimers hne).1) (htimers hne).2
  · exact exists_mem_set hi (h.events (hevents hne).1) (hevents hne).2
  · have hold : ∀ x ∈ s.workers, x.idleTerm = true := by
      intro x hx
      by_contra hfalse
      obtain ⟨z, hz, hP⟩ := exists_mem_set (P := fun x : Worker => x.idleTerm ≠ true) hi
        ⟨x, hx, hfalse⟩
        fun hne => hterm ▸ hne
      exact hP (hall z hz)
    obtain ⟨hstop, hfibers, hzero⟩ := h.ended hold
    exact ⟨hstop, hended (hold w (List.mem_of_getElem? hi)) hfibers hzero⟩
  · have hcount := countP_set_add Worker.isExecuting hi w'
    rw [← h.active] at hcount
    show active = (s.workers.set i w').countP Worker.isExecuting
    omega

/-- A worker moves and changes nothing else. -/
theorem Kept.goes (h : Kept s) (hi : s.workers[i]? = some w) (hterm : w'.idleTerm = w.idleTerm)
    (htimers : s.timers ≠ 0 → w.LooksForTimers → w'.LooksForTimers)
    (hevents : s.pending ≠ 0 → w.LooksForEvents → w'.LooksForEvents)
    (hrun : w'.idleTerm = true → w'.InRun) (hexited : w'.place = .exited → w'.idleTerm = true)
    (hactive : w'.isExecuting = w.isExecuting) : Kept (s.go i w') :=
  h.go hi hterm (fun hne => ⟨hne, htimers hne⟩) (fun hne => ⟨hne, hevents hne⟩)
    (fun _ hf ha => ⟨hf, ha⟩) hrun hexited
    (by rw [hactive])

/-- A worker looks for a task. -/
theorem Kept.pick {tid : Int} {idleTerm : Bool} (h : Kept s)
    (hi : s.workers[i]? = some ⟨tid, idleTerm, .scan⟩) :
    Kept (s.pick i ⟨tid, idleTerm, .scan⟩) := by
  unfold IOManager.pick
  split
  · rename_i hany
    refine h.go hi rfl (fun hne => ⟨hne, fun hw => ⟨hw.1, nofun, nofun⟩⟩)
      (fun hne => ⟨hne, fun hw => ⟨hw.1, nofun⟩⟩)
      (fun _ hf _ => ?_) (fun _ => trivial) nofun rfl
    rw [hf] at hany
    cases hany
  · exact h.goes hi rfl (fun _ hw => ⟨hw.1, nofun, nofun⟩) (fun _ hw => ⟨hw.1, nofun⟩)
      (fun _ => trivial) nofun rfl

/-- A task returns. -/
theorem Kept.finish {tid : Int} {idleTerm : Bool} (h : Kept s)
    (hi : s.workers[i]? = some ⟨tid, idleTerm, .executing⟩) :
    Kept ({ s with active := s.active - 1 }.go i ⟨tid, idleTerm, .scan⟩) := by
  have hpos := h.active_pos (List.mem_of_getElem? hi) rfl
  refine h.go hi rfl (fun hne => ⟨hne, fun hw => ⟨hw.1, nofun, nofun⟩⟩)
    (fun hne => ⟨hne, fun hw => ⟨hw.1, nofun⟩⟩)
    (fun _ _ ha => absurd ha hpos) (fun _ => trivial) nofun ?_
  show s.active - 1 + 1 = s.active + 0
  omega

/-- A worker without a task ends or goes to its idle fiber. -/
theorem Kept.rest {tid : Int} {idleTerm : Bool} (h : Kept s)
    (hi : s.workers[i]? = some ⟨tid, idleTerm, .taskless⟩) :
    Kept (s.rest i ⟨tid, idleTerm, .taskless⟩) := by
  cases idleTerm with
  | true =>
    exact h.goes hi rfl (fun _ hw => nomatch hw.1) (fun _ hw => nomatch hw.1)
      (fun _ => trivial) (fun _ => rfl) rfl
  | false =>
    exact h.goes hi rfl (fun _ hw => ⟨hw.1, nofun, nofun⟩) (fun _ hw => ⟨hw.1, nofun⟩)
      nofun nofun rfl

/-- The idle fiber of a worker that is in it has not ended. -/
theorem Kept.idleTerm_eq (h : Kept s) (hi : s.workers[i]? = some w) (hplace : ¬ w.InRun) :
    w.idleTerm = false :=
  Bool.eq_false_iff.2 fun hterm => hplace (h.inRun w (List.mem_of_getElem? hi) hterm)

/-- The test for timers finds one if there is one. -/
theorem Kept.timerTest {tid : Int} {idleTerm : Bool} (h : Kept s)
    (hi : s.workers[i]? = some ⟨tid, idleTerm, .timerTest⟩) :
    Kept (s.timerTest i ⟨tid, idleTerm, .timerTest⟩) := by
  obtain rfl : idleTerm = false := h.idleTerm_eq hi id
  unfold IOManager.timerTest
  by_cases hzero : s.timers = 0
  · rw [if_pos hzero]
    exact h.goes hi rfl (fun hne => absurd hzero hne) (fun _ hw => ⟨hw.1, nofun⟩) nofun nofun rfl
  · rw [if_neg hzero]
    exact h.goes hi rfl (fun _ hw => ⟨hw.1, nofun, nofun⟩) (fun _ hw => ⟨hw.1, nofun⟩) nofun nofun rfl

/-- The test for events finds one if there is one. -/
theorem Kept.eventTest {tid : Int} {idleTerm : Bool} (h : Kept s)
    (hi : s.workers[i]? = some ⟨tid, idleTerm, .eventTest⟩) :
    Kept (s.eventTest i ⟨tid, idleTerm, .eventTest⟩) := by
  obtain rfl : idleTerm = false := h.idleTerm_eq hi id
  unfold IOManager.eventTest
  by_cases hzero : s.pending = 0
  · rw [if_pos hzero]
    exact h.goes hi rfl (fun _ hw => absurd rfl hw.2.1) (fun hne => absurd hzero hne) nofun nofun rfl
  · rw [if_neg hzero]
    exact h.goes hi rfl (fun _ hw => ⟨hw.1, nofun, nofun⟩) (fun _ hw => ⟨hw.1, nofun⟩) nofun nofun rfl

/-- **An idle fiber ends** only when the queue is empty and no task is executed; it was nobody's
witness. -/
theorem Kept.stopTest {tid : Int} {idleTerm : Bool} (h : Kept s)
    (hi : s.workers[i]? = some ⟨tid, idleTerm, .stopTest⟩) :
    Kept (s.stopTest i ⟨tid, idleTerm, .stopTest⟩) := by
  obtain rfl : idleTerm = false := h.idleTerm_eq hi id
  unfold IOManager.stopTest
  split
  · rename_i hstop
    refine ⟨fun hne => ?_, fun hne => ?_, fun _ => hstop, forall_mem_set h.inRun fun _ => trivial,
      forall_mem_set h.exited nofun, ?_⟩
    · exact exists_mem_set hi (h.timers hne) fun hw => absurd rfl hw.2.2
    · exact exists_mem_set hi (h.events hne) fun hw => absurd rfl hw.2
    · have hcount := countP_set_add Worker.isExecuting hi ⟨tid, true, .scan⟩
      exact h.active.trans hcount.symm
  · exact h.goes hi rfl (fun _ hw => ⟨hw.1, nofun, nofun⟩) (fun _ hw => ⟨hw.1, nofun⟩) nofun nofun rfl

/-- The controlling thread or a task changes the queue or a counter. -/
theorem Kept.act (h : Kept s) {who : Option Nat} (hact : s.mayAct who = true)
    (htimers : timers ≠ 0 → ∃ w ∈ s.workers, w.LooksForTimers)
    (hevents : pending ≠ 0 → ∃ w ∈ s.workers, w.LooksForEvents)
    (fibers : List Int) : Kept { s with fibers, timers, pending } :=
  ⟨htimers, hevents, fun hall => absurd hact (h.not_mayAct hall who), h.inRun, h.exited, h.active⟩

/-- **What a step keeps** when timers and events are seen. -/
theorem Kept.next (h : Kept s) (hseen : move.Seen s) (hn : s.next move = some t) : Kept t := by
  cases move with
  | addTask who thread =>
    simp only [IOManager.next, Option.ite_none_right_eq_some, Option.some.injEq] at hn
    obtain ⟨hact, rfl⟩ := hn
    exact h.act hact h.timers h.events _
  | addTimer who =>
    simp only [IOManager.next, Option.ite_none_right_eq_some, Option.some.injEq] at hn
    obtain ⟨hact, rfl⟩ := hn
    exact h.act hact (fun _ => hseen) h.events _
  | addEvent who =>
    simp only [IOManager.next, Option.ite_none_right_eq_some, Option.some.injEq] at hn
    obtain ⟨hact, rfl⟩ := hn
    exact h.act hact h.timers (fun _ => hseen) _
  | cancelTimer who =>
    simp only [IOManager.next, Option.ite_none_right_eq_some, Option.some.injEq] at hn
    obtain ⟨hact, rfl⟩ := hn
    exact h.act hact (fun hne => h.timers fun hzero => hne (by omega)) h.events _
  | cancelEvent who =>
    simp only [IOManager.next, Option.ite_none_right_eq_some, Option.some.injEq] at hn
    obtain ⟨⟨hact, hpending⟩, rfl⟩ := hn
    exact h.act hact h.timers (fun _ => h.events hpending) _
  | delEvent who =>
    simp only [IOManager.next, Option.ite_none_right_eq_some, Option.some.injEq] at hn
    obtain ⟨hact, rfl⟩ := hn
    exact h.act hact h.timers (fun hne => h.events fun hzero => hne (by omega)) _
  | stop =>
    simp only [IOManager.next, Option.ite_none_left_eq_some, Option.some.injEq] at hn
    obtain ⟨-, rfl⟩ := hn
    exact ⟨h.timers, h.events, fun hall => ⟨rfl, (h.ended hall).2⟩, h.inRun, h.exited, h.active⟩
  | pick i =>
    simp only [IOManager.next] at hn
    split at hn
    · rename_i hi
      obtain rfl := Option.some.inj hn
      exact h.pick hi
    · cases hn
  | finish i =>
    simp only [IOManager.next] at hn
    split at hn
    · rename_i hi
      obtain rfl := Option.some.inj hn
      exact h.finish hi
    · cases hn
  | rest i =>
    simp only [IOManager.next] at hn
    split at hn
    · rename_i hi
      obtain rfl := Option.some.inj hn
      exact h.rest hi
    · cases hn
  | test i =>
    simp only [IOManager.next] at hn
    split at hn
    · rename_i hi
      obtain rfl := Option.some.inj hn
      exact h.timerTest hi
    · rename_i hi
      obtain rfl := Option.some.inj hn
      exact h.eventTest hi
    · rename_i hi
      obtain rfl := Option.some.inj hn
      exact h.stopTest hi
    · cases hn
  | collect i cbs left =>
    simp only [IOManager.next] at hn
    split at hn
    · rename_i tid idleTerm hi
      obtain ⟨hleft, rfl⟩ : (left ≤ s.timers ∧ s.timers ≤ left + cbs) ∧ _ = t := by
        simpa only [Option.ite_none_right_eq_some, Option.some.injEq] using hn
      obtain rfl : idleTerm = false := h.idleTerm_eq hi id
      exact h.go hi rfl (fun hne => ⟨by omega, fun hw => ⟨hw.1, nofun, nofun⟩⟩)
        (fun hne => ⟨hne, fun hw => ⟨hw.1, nofun⟩⟩)
        nofun nofun nofun rfl
    · cases hn
  | schedule i =>
    simp only [IOManager.next] at hn
    split at hn
    · rename_i tid idleTerm cbs hi
      obtain rfl := Option.some.inj hn
      obtain rfl : idleTerm = false := h.idleTerm_eq hi id
      exact h.go hi rfl (fun hne => ⟨hne, fun hw => ⟨hw.1, nofun, nofun⟩⟩)
        (fun hne => ⟨hne, fun hw => ⟨hw.1, nofun⟩⟩)
        nofun nofun nofun rfl
    · cases hn
  | trigger i =>
    simp only [IOManager.next] at hn
    split at hn
    · rename_i tid idleTerm hi
      obtain ⟨hpending, rfl⟩ : s.pending ≠ 0 ∧ _ = t := by
        simpa only [Option.ite_none_right_eq_some, Option.some.injEq] using hn
      obtain rfl : idleTerm = false := h.idleTerm_eq hi id
      refine ⟨h.timers, fun _ => h.events hpending, fun hall => ?_, h.inRun, h.exited, h.active⟩
      cases hall _ (List.mem_of_getElem? hi)
    · cases hn
  | yield i =>
    simp only [IOManager.next] at hn
    split at hn
    · rename_i hi
      obtain rfl := Option.some.inj hn
      exact h.goes hi rfl (fun _ hw => ⟨hw.1, nofun, nofun⟩) (fun _ hw => ⟨hw.1, nofun⟩)
        (fun _ => trivial) nofun rfl
    · cases hn

/-- When all loops have ended there is nobody left to look for a timer or an event. -/
theorem Kept.nothingLeft (h : Kept s) (hended : s.Ended) : s.NothingLeft := by
  have hterm : ∀ w ∈ s.workers, w.idleTerm = true := fun w hw => h.exited w hw (hended w hw)
  refine ⟨(h.ended hterm).2.1, ?_, ?_⟩
  · by_contra hne
    obtain ⟨w, hw, hlooks⟩ := h.timers hne
    cases (hterm w hw).symm.trans hlooks.1
  · by_contra hne
    obtain ⟨w, hw, hlooks⟩ := h.events hne
    cases (hterm w hw).symm.trans hlooks.1

end

/-- **Nothing is left behind.**  With at least one worker, as the constructor asserts, in every run
in which a timer is added only while some worker has its test for timers before it, and an event
only while some worker has its test for events before it, the queue is empty and no timer and no
event is left when all worker loops have ended. -/
theorem nothing_left_behind {tids : List Int} (htids : tids ≠ []) {moves : List Move} {s : IOManager}
    (h : (system tids).Run (fun s move => move.Seen s) moves s) (hended : s.Ended) :
      s.NothingLeft := by
  have hkept : Kept s := h.invariant (I := fun _ s => Kept s)
    (Kept.new htids) fun _ _ _ _ h hseen hn => h.next hseen hn
  exact hkept.nothingLeft hended

/-- Whether a worker is about to look for timers can be computed. -/
instance (w : Worker) : Decidable w.LooksForTimers :=
  inferInstanceAs (Decidable (w.idleTerm = false ∧ w.place ≠ .eventTest ∧ w.place ≠ .stopTest))

/-- Whether a worker is about to look for events can be computed. -/
instance (w : Worker) : Decidable w.LooksForEvents :=
  inferInstanceAs (Decidable (w.idleTerm = false ∧ w.place ≠ .stopTest))

/-- Whether every worker has ended can be computed. -/
instance (s : IOManager) : Decidable s.Ended :=
  inferInstanceAs (Decidable (∀ w ∈ s.workers, w.place = .exited))

/-- Whether what is added is still seen can be computed. -/
instance (s : IOManager) : (move : Move) → Decidable (move.Seen s)
  | .addTimer _ => inferInstanceAs (Decidable (∃ w ∈ s.workers, w.LooksForTimers))
  | .addEvent _ => inferInstanceAs (Decidable (∃ w ∈ s.workers, w.LooksForEvents))
  | .addTask .. => isTrue trivial
  | .cancelTimer _ => isTrue trivial
  | .cancelEvent _ => isTrue trivial
  | .delEvent _ => isTrue trivial
  | .stop => isTrue trivial
  | .pick _ => isTrue trivial
  | .finish _ => isTrue trivial
  | .rest _ => isTrue trivial
  | .test _ => isTrue trivial
  | .collect .. => isTrue trivial
  | .schedule _ => isTrue trivial
  | .trigger _ => isTrue trivial
  | .yield _ => isTrue trivial

/-- A timer is added while the worker has its tests before it; the worker finds it, waits, and
executes its callback. -/
def timerSeen : List Move :=
  [.pick 0, .rest 0, .addTimer none, .test 0, .stop, .collect 0 1 0, .schedule 0, .yield 0,
    .pick 0, .finish 0, .pick 0,
    .rest 0, .test 0, .test 0, .test 0, .pick 0, .rest 0]

/-- The worker ends after that. -/
theorem nothing_left_behind_timerSeen :
    ∃ s, (system [1]).Run (fun s move => move.Seen s) timerSeen s ∧ s.Ended ∧
    s.NothingLeft := by
  have hsome : ((system [1]).exec (fun s move => decide (move.Seen s))
      (system [1]).init timerSeen).isSome = true := by
    decide
  obtain ⟨s, hs⟩ := Option.isSome_iff_exists.1 hsome
  have hend : ((system [1]).exec (fun s move => decide (move.Seen s)) (system [1]).init timerSeen).all
      (fun s => decide s.Ended) = true := by
    decide
  rw [hs, Option.all_some] at hend
  have hrun : (system [1]).Run (fun s move => move.Seen s) timerSeen s :=
    System.run_of_exec (fun _ _ => of_decide_eq_true) hs
  exact ⟨s, hrun, of_decide_eq_true hend,
    nothing_left_behind (by decide) hrun (of_decide_eq_true hend)⟩

/-- The worker has seen no timer; then one is added, and `stop` is called. -/
def timerUnseen : List Move :=
  [.pick 0, .rest 0, .test 0, .addTimer none, .stop, .test 0, .test 0, .pick 0, .rest 0]

/-- **A timer is left behind**: the worker goes on with its other tests, and ends. -/
theorem timer_left_behind : ∃ s, (system [1]).Run anyStep timerUnseen s ∧ s.Ended ∧ s.timers = 1 ∧
    ¬ s.NothingLeft := by
  have hsome : ((system [1]).exec (fun _ _ => true) (system [1]).init timerUnseen).isSome = true := by
    decide
  obtain ⟨s, hs⟩ := Option.isSome_iff_exists.1 hsome
  have hend : ((system [1]).exec (fun _ _ => true) (system [1]).init timerUnseen).all
      (fun s => decide (s.Ended ∧ s.timers = 1)) = true := by
    decide
  rw [hs, Option.all_some] at hend
  obtain ⟨hended, htimers⟩ := of_decide_eq_true hend
  refine ⟨s, System.run_of_exec (fun _ _ _ => trivial) hs, hended, htimers, fun hnothing => ?_⟩
  cases htimers.symm.trans hnothing.2.1

end Stop
end Wuchat
