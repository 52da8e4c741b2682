/-
# A scheduler on the thread of its caller

`scheduler.cpp`: a `Scheduler` of one thread with `use_call` has no thread of its own.  Its tasks are saved up in the
queue, and `stop` resumes the root fiber, which executes `run` on the thread of the caller: it takes the
first task of the queue that is for any thread or for this one, executes it, and when there is none
it resumes the idle fiber, which ends when `stop` was called, the queue is empty and no task is executed.  Then
`run` ends, and `stop` returns.

What a task does when it is executed is to schedule others; a fiber that schedules itself and yields schedules
what it has left to do.  `spawns` says which those are, for tasks of any type: nothing is asked of it.

`stop` returns exactly when the tasks, level by level, are all for this thread and come to an end
(`stop_iff`); it has then executed the tasks of each level in order, each once.  A task that is pinned to
another thread stays in the queue, and the caller goes round for ever.
-/

import Wuchat.Foundation.Levels
import Wuchat.Sched.Scheduler

namespace Wuchat
namespace Caller

open Foundation
open Sched (SchedulerTask search search_take search_some)

/-- `Scheduler` with its root fiber: `m_fibers`, `m_activeThreadCount`, `m_stopping`, whether the idle fiber of `run`
has terminated, and what was executed. -/
structure Scheduler (β : Type*) where
  m_fibers : List (SchedulerTask β)
  m_activeThreadCount : Nat
  m_stopping : Bool
  idleTerm : Bool
  executed : List β

namespace Scheduler

variable {β : Type*} (spawns : β → List (SchedulerTask β)) (tid : Int)

/-- The scheduler after the calls of `scheduler` that come before `stop`. -/
def new (tasks : List (SchedulerTask β)) : Scheduler β := ⟨tasks, 0, false, false, []⟩

/-- `stopping()`. -/
def stopping (s : Scheduler β) : Bool := s.m_stopping && s.m_fibers.isEmpty && s.m_activeThreadCount == 0

/-- The task is taken. -/
def take (s : Scheduler β) (rest : List (SchedulerTask β)) : Scheduler β :=
  { s with m_fibers := rest, m_activeThreadCount := s.m_activeThreadCount + 1 }

/-- The task is resumed, schedules others, and comes back. -/
def execute (s : Scheduler β) (job : β) : Scheduler β :=
  { s with
    m_fibers := s.m_fibers ++ spawns job
    m_activeThreadCount := s.m_activeThreadCount - 1
    executed := s.executed ++ [job] }

/-- The idle fiber is resumed: it tests `stopping`, and yields or ends. -/
def idle (s : Scheduler β) : Scheduler β := { s with idleTerm := s.stopping }

/-- `run()`, with a bound on the number of its rounds. -/
def run : Nat → Scheduler β → Option (Scheduler β)
  | 0, _ => none
  | fuel + 1, s =>
    let found := search id tid s.m_fibers
    match found.task with
    | some task => run fuel ((s.take found.rest).execute spawns task.job)
    | none => if s.idleTerm then some s else run fuel s.idle

/-- `stop()`. -/
def stop (fuel : Nat) (s : Scheduler β) : Option (Scheduler β) :=
  if s.stopping then some s else run spawns tid fuel { s with m_stopping := true }

/-- The tasks that a task schedules. -/
def children (task : SchedulerTask β) : List (SchedulerTask β) := spawns task.job

/-! ### The loop -/

section Run

variable {spawns : β → List (SchedulerTask β)} {tid : Int} {s t : Scheduler β} {fuel : Nat}

/-- **A task of another thread** keeps `run` from ending. -/
theorem run_pinned {x : SchedulerTask β} (hx : x ∈ s.m_fibers) (hpinned : ¬ x.Eligible tid)
    (hidle : s.idleTerm = false) : run spawns tid fuel s = none := by
  induction fuel generalizing s with
  | zero => rfl
  | succ fuel ih =>
    rw [run]
    split
    · rename_i task hfound
      obtain ⟨hmine, pre, post, hq, hrest, -⟩ := search_some hfound
      have hstays : x ∈ pre ++ post := by
        rw [hq, List.mem_append, List.mem_cons] at hx
        rw [List.mem_append]
        exact hx.imp_right fun hx => hx.resolve_left fun heq => hpinned (heq ▸ hmine)
      refine ih (List.mem_append_left _ ?_) hidle
      rwa [take, hrest]
    · have hstays : s.stopping = false := by
        cases hq : s.m_fibers with
        | nil => rw [hq] at hx; cases hx
        | cons y queue => simp [stopping, hq]
      rw [hidle, if_neg Bool.false_ne_true]
      exact ih (s := s.idle) hx hstays

/-- Between its rounds, `run` was told to stop and executes nothing. -/
structure Between (s : Scheduler β) : Prop where
  active : s.m_activeThreadCount = 0
  stopping : s.m_stopping = true
  idle : s.idleTerm = false

/-- The scheduler when `stop` returns. -/
def finished (executed : List β) : Scheduler β := ⟨[], 0, true, true, executed⟩

/-- A round that executes a task ends where the next one begins. -/
theorem Between.round (h : Between s) (rest : List (SchedulerTask β)) (job : β) :
    Between ((s.take rest).execute spawns job) := by
  refine ⟨?_, h.stopping, h.idle⟩
  show s.m_activeThreadCount + 1 - 1 = 0
  rw [h.active]

/-- With an empty queue the idle fiber ends, and then `run`. -/
theorem run_empty (h : Between s) (hempty : s.m_fibers = []) :
    run spawns tid (fuel + 2) s = some (finished s.executed) := by
  have hidle : s.idle = finished s.executed := by
    simp [idle, stopping, finished, h.active, h.stopping, hempty]
  rw [run, hempty]
  dsimp only [search]
  rw [h.idle, hidle]
  rfl

/-- **What `run` has done when it ends**: it worked the queue through, and all tasks were for this thread. -/
theorem drain_of_run (h : Between s) (hrun : run spawns tid fuel s = some t) :
    ∃ visited, drain (children spawns) fuel s.m_fibers = some visited ∧ (∀ task ∈ visited, task.Eligible tid) ∧
      t = finished (s.executed ++ visited.map SchedulerTask.job) := by
  induction fuel generalizing s with
  | zero => cases hrun
  | succ fuel ih =>
    cases hq : s.m_fibers with
    | nil =>
      refine ⟨[], drain_nil _ _, nofun, ?_⟩
      cases fuel with
      | zero => simp [run, hq, search, h.idle] at hrun
      | succ fuel =>
        rw [run_empty h hq] at hrun
        simpa using (Option.some.inj hrun).symm
    | cons task rest =>
      by_cases hmine : task.Eligible tid
      · rw [run, hq, search_take (show (id task).Eligible tid from hmine)] at hrun
        obtain ⟨visited, hvisited, hall, rfl⟩ := ih (h.round rest task.job) hrun
        refine ⟨task :: visited, ?_, List.forall_mem_cons.mpr ⟨hmine, hall⟩, ?_⟩
        · rw [drain, show drain (children spawns) fuel (rest ++ children spawns task) = some visited from hvisited]
          rfl
        · simp [execute, take, List.append_assoc]
      · rw [run_pinned (hq ▸ List.mem_cons_self) hmine h.idle] at hrun
        cases hrun

/-- **A queue of tasks for this thread** that can be worked through is. -/
theorem run_of_drain (h : Between s) {visited : List (SchedulerTask β)}
    (hdrain : drain (children spawns) fuel s.m_fibers = some visited) (hall : ∀ task ∈ visited, task.Eligible tid) :
    run spawns tid (fuel + 2) s = some (finished (s.executed ++ visited.map SchedulerTask.job)) := by
  induction fuel generalizing s visited with
  | zero =>
    cases hq : s.m_fibers with
    | nil =>
      rw [hq, drain_nil] at hdrain
      obtain rfl := Option.some.inj hdrain
      simpa using run_empty h hq
    | cons task rest =>
      rw [hq] at hdrain
      cases hdrain
  | succ fuel ih =>
    cases hq : s.m_fibers with
    | nil =>
      rw [hq, drain_nil] at hdrain
      obtain rfl := Option.some.inj hdrain
      simpa using run_empty h hq
    | cons task rest =>
      rw [hq] at hdrain
      obtain ⟨later, hlater, rfl⟩ := Option.map_eq_some_iff.mp hdrain
      obtain ⟨hmine, hrest⟩ := List.forall_mem_cons.mp hall
      rw [run, hq, search_take (show (id task).Eligible tid from hmine)]
      simp only
      rw [ih (h.round rest task.job) hlater hrest]
      simp [execute, take, List.append_assoc]

end Run

/-- **When `stop` returns, and what it has done.**  `stop` of a scheduler on the thread of its caller returns
exactly when the saved tasks, those that they schedule, those that these schedule and so on are all for this
thread and come to an end; it has then executed the tasks of each of these levels in order, each once, and
left none. -/
theorem stop_iff {tasks : List (SchedulerTask β)} {t : Scheduler β} :
    (∃ fuel, stop spawns tid fuel (new tasks) = some t) ↔
      ∃ n, level (children spawns) n tasks = [] ∧
        (∀ task ∈ levels (children spawns) n tasks, task.Eligible tid) ∧
        t = finished ((levels (children spawns) n tasks).map SchedulerTask.job) := by
  have hbetween : Between { new tasks with m_stopping := true } := ⟨rfl, rfl, rfl⟩
  constructor
  · rintro ⟨fuel, hstop⟩
    obtain ⟨visited, hdrain, hall, rfl⟩ := drain_of_run hbetween hstop
    obtain ⟨n, hend, rfl⟩ := (drain_iff _).mp ⟨fuel, hdrain⟩
    exact ⟨n, hend, hall, rfl⟩
  · rintro ⟨n, hend, hall, rfl⟩
    obtain ⟨fuel, hdrain⟩ := (drain_iff _).mpr ⟨n, hend, rfl⟩
    exact ⟨fuel + 2, run_of_drain hbetween hdrain hall⟩

/-- The jobs of a test: one is a fiber that yields once, one schedules three functions on the thread of the caller. -/
def testSpawns : Nat → List (SchedulerTask Nat)
  | 1 => [⟨11, -1⟩]
  | 4 => [⟨5, 7⟩, ⟨5, 7⟩, ⟨5, 7⟩]
  | _ => []

example : (stop testSpawns 7 12 (new [⟨1, -1⟩, ⟨2, -1⟩, ⟨3, -1⟩, ⟨4, -1⟩])).map Scheduler.executed =
    some [1, 2, 3, 4, 11, 5, 5, 5] := rfl

end Scheduler

end Caller
end Wuchat
