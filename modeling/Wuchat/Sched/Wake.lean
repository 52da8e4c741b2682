/-
# Waking idle threads

`scheduler.h`, `scheduler.cpp`, `iomanager.cpp`: a worker that finds no task sleeps in
`epoll_wait`.  It is woken by a byte in a pipe, which `tickle` writes when
`m_idleThreadCount` is not zero, and it reads the pipe empty.  `scheduler(f, thread)`
tickles when the queue was empty before, and a worker after its search when it leaves tasks
in the queue.

Any number of workers and of calls of `scheduler` interleave; the test of the counter and
the write in `tickle` are steps of their own, and so are the search of a worker and the
change of the counter.  `epoll_wait` may return at any time, with the pipe among its events
or without it.  What the workers schedule for timers and events are calls like the others.
Left out: `stop`.

A byte is pending when all workers execute or sleep, some worker sleeps, no call is in
progress and a task for any thread waits, if two things do not happen (`sleepers_woken`).
Such a task is not put behind tasks for certain threads while a worker is asleep and nothing
is on the way to wake one: `scheduler` does not tickle then (`task_behind_pinned_task`).
And `tickle` does not find the counter zero while such a task waits and a worker is between
its search and the change of the counter.
-/

import Wuchat.Foundation.Places
import Wuchat.Sched.Tasks

namespace Wuchat
namespace Wake

open Foundation
open Sched (Queued FiberOrCb search)

/-- Where a worker is: before its search; in `tickle` after it, before its test or its write, with a
task or without one; in a task; without one; in the idle fiber, with the counter raised; in
`epoll_wait`; or behind it, with the pipe still to read or not. -/
inductive Place
  | scan
  | tickle (found : Bool)
  | write (found : Bool)
  | executing
  | taskless
  | idling
  | blocked
  | processing (drains : Bool)
  deriving DecidableEq, Repr

/-- Where a worker goes after its search. -/
def Place.after (found : Bool) : Place := if found then .executing else .taskless

/-- A worker, with the id of its thread. -/
structure Worker where
  tid : Int
  place : Place
  deriving DecidableEq, Repr

/-- A call of `tickle` by `scheduler`: before its test, or before its write. -/
inductive Tickle
  | testing
  | writing
  deriving DecidableEq, Repr

/-- `m_fibers`, `m_idleThreadCount`, the number of bytes in the pipe, the calls of `scheduler` that
tickle, and the workers. -/
structure IOManager where
  fibers : List Queued
  count : Nat
  idle : Nat
  bytes : Nat
  owed : List Tickle
  workers : List Worker

namespace IOManager

variable (s : IOManager)

/-- An `IOManager` with workers on the threads with some ids. -/
def new (tids : List Int) : IOManager := ⟨[], 0, 0, 0, [], tids.map fun tid => ⟨tid, .scan⟩⟩

/-- A worker comes to a place. -/
def go (i : Nat) (tid : Int) (place : Place) : IOManager :=
  { s with workers := s.workers.set i ⟨tid, place⟩ }

/-- `scheduler(f, thread)`, up to `tickle`. -/
def scheduler (f : FiberOrCb) (thread : Int) : IOManager :=
  let owed := if s.fibers = [] then s.owed ++ [.testing] else s.owed
  if h : f.NonEmpty then
    { s with fibers := s.fibers ++ [⟨s.count, ⟨f, thread⟩, h⟩], count := s.count + 1, owed }
  else { s with owed }

/-- The search of a worker. -/
def pick (i : Nat) (tid : Int) : IOManager :=
  let found := search Queued.task tid s.fibers
  { s with fibers := found.rest }.go i tid
    (if found.tickleMe then .tickle found.task.isSome else .after found.task.isSome)

end IOManager

/-- The steps of the calls of `scheduler` and of the workers. -/
inductive Move
  | scheduler (f : FiberOrCb) (thread : Int)
  | test (k : Nat)
  | write (k : Nat)
  | pick (i : Nat)
  | testIdle (i : Nat)
  | writeByte (i : Nat)
  | finish (i : Nat)
  | rest (i : Nat)
  | block (i : Nat)
  | wake (i : Nat) (drains : Bool)
  | drain (i : Nat)
  | yield (i : Nat)
  deriving DecidableEq, Repr

/-- The state after a step. -/
def IOManager.next (s : IOManager) : Move → Option IOManager
  | .scheduler f thread => some (s.scheduler f thread)
  | .test k =>
    match s.owed[k]? with
    | some .testing => some { s with owed := if s.idle = 0 then s.owed.eraseIdx k else s.owed.set k .writing }
    | _ => none
  | .write k =>
    match s.owed[k]? with
    | some .writing => some { s with owed := s.owed.eraseIdx k, bytes := s.bytes + 1 }
    | _ => none
  | .pick i =>
    match s.workers[i]? with
    | some ⟨tid, .scan⟩ => some (s.pick i tid)
    | _ => none
  | .testIdle i =>
    match s.workers[i]? with
    | some ⟨tid, .tickle found⟩ =>
        some (s.go i tid (if s.idle = 0 then .after found else .write found))
    | _ => none
  | .writeByte i =>
    match s.workers[i]? with
    | some ⟨tid, .write found⟩ => some ({ s with bytes := s.bytes + 1 }.go i tid (.after found))
    | _ => none
  | .finish i =>
    match s.workers[i]? with
    | some ⟨tid, .executing⟩ => some (s.go i tid .scan)
    | _ => none
  | .rest i =>
    match s.workers[i]? with
    | some ⟨tid, .taskless⟩ => some ({ s with idle := s.idle + 1 }.go i tid .idling)
    | _ => none
  | .block i =>
    match s.workers[i]? with
    | some ⟨tid, .idling⟩ => some (s.go i tid .blocked)
    | _ => none
  | .wake i drains =>
    match s.workers[i]? with
    | some ⟨tid, .blocked⟩ => some (s.go i tid (.processing drains))
    | _ => none
  | .drain i =>
    match s.workers[i]? with
    | some ⟨tid, .processing true⟩ => some ({ s with bytes := 0 }.go i tid (.processing false))
    | _ => none
  | .yield i =>
    match s.workers[i]? with
    | some ⟨tid, .processing false⟩ => some ({ s with idle := s.idle - 1 }.go i tid .scan)
    | _ => none

/-- The calls and the workers as a system. -/
def system (tids : List Int) : System IOManager Move := ⟨.new tids, IOManager.next⟩

/-- A task for any thread waits. -/
def IOManager.AnyWaits (s : IOManager) : Prop := ∃ q ∈ s.fibers, q.task.thread = -1

/-- If every worker executes or is blocked, one is blocked, no call is in progress and a task for
any thread waits, then a byte is pending. -/
def IOManager.Wakes (s : IOManager) : Prop :=
  (∀ w ∈ s.workers, w.place = .executing ∨ w.place = .blocked) → s.owed = [] → s.AnyWaits →
    (∃ w ∈ s.workers, w.place = .blocked) → s.bytes ≠ 0

/-- The worker has searched and found nothing, and sleeps or is about to. -/
def Worker.asleep (w : Worker) : Bool :=
  decide (w.place = .taskless ∨ w.place = .idling ∨ w.place = .blocked)

/-- The worker is about to search or to tickle. -/
def Worker.awake (w : Worker) : Bool :=
  match w.place with
  | .scan | .tickle _ | .write _ | .processing _ => true
  | _ => false

/-- The worker has searched and found nothing, and is not in the counter. -/
def Worker.uncounted (w : Worker) : Bool :=
  match w.place with
  | .taskless | .tickle false => true
  | _ => false

/-- How much is on the way to wake a worker: bytes, calls of `tickle`, and workers that are about to
search or to tickle. -/
def IOManager.cover (s : IOManager) : Nat := s.bytes + s.owed.length + s.workers.countP Worker.awake

/-- The test of a `tickle` finds the counter raised, or nothing depends on it: no task for any
thread waits, all workers that found nothing are in the counter, or something else is on the way. -/
def IOManager.TestHeard (s : IOManager) : Prop :=
  s.idle ≠ 0 ∨ ¬ s.AnyWaits ∨ (∀ w ∈ s.workers, w.uncounted = false) ∨ 1 < s.cover

/-- What is asked of a step.  A task for any thread is not put behind tasks for certain threads
while a worker is asleep and nothing is on the way to wake one; and a test of a `tickle` is heard.
-/
def Move.Heard (s : IOManager) : Move → Prop
  | .scheduler _ thread => thread = -1 → s.fibers ≠ [] → ¬ s.AnyWaits →
      (∃ w ∈ s.workers, w.asleep = true) → 0 < s.cover
  | .test _ => s.TestHeard
  | .testIdle _ => s.TestHeard
  | _ => True

/-! ### What the steps keep -/

/-- The worker is in the counter. -/
def Worker.counted (w : Worker) : Bool :=
  match w.place with
  | .idling | .blocked | .processing _ => true
  | _ => false

/-- While a task for any thread waits and a worker is asleep, something is on the way to wake one.
-/
structure Covered (s : IOManager) : Prop where
  idle : s.idle = s.workers.countP Worker.counted
  cover : s.AnyWaits → (∃ w ∈ s.workers, w.asleep = true) → 0 < s.cover

section

variable {s t : IOManager} {move : Move} {i : Nat} {tid : Int} {place place' : Place} {w : Worker}

/-- New workers have nothing to wake up for. -/
theorem Covered.new (tids : List Int) : Covered (IOManager.new tids) := by
  refine ⟨?_, ?_⟩
  · symm
    refine List.countP_eq_zero.2 fun w hw hcounted => ?_
    obtain ⟨tid, -, rfl⟩ := List.mem_map.1 hw
    cases hcounted
  · rintro ⟨q, hq, -⟩
    cases hq

/-- A worker that is about to search or to tickle is on the way. -/
theorem cover_pos_of_awake (hw : w ∈ s.workers) (hawake : w.awake = true) : 0 < s.cover := by
  have hpos : 0 < s.workers.countP Worker.awake := List.countP_pos_iff.2 ⟨w, hw, hawake⟩
  unfold IOManager.cover
  omega

/-- A worker in the counter is counted. -/
theorem Covered.idle_pos (h : Covered s) (hw : w ∈ s.workers) (hcounted : w.counted = true) :
    s.idle ≠ 0 := by
  have hpos : 0 < s.workers.countP Worker.counted := List.countP_pos_iff.2 ⟨w, hw, hcounted⟩
  rw [← h.idle] at hpos
  omega

/-- The counter after a worker has moved. -/
theorem Covered.idle_go (h : Covered s) (hi : s.workers[i]? = some ⟨tid, place⟩) {idle : Nat}
    (hidle : idle + (if (⟨tid, place⟩ : Worker).counted then 1 else 0) =
      s.idle + if (⟨tid, place'⟩ : Worker).counted then 1 else 0) :
    idle = (s.workers.set i ⟨tid, place'⟩).countP Worker.counted := by
  have hcount := countP_set_add Worker.counted hi ⟨tid, place'⟩
  rw [← h.idle] at hcount
  omega

/-- **A worker comes to a place before a search or a `tickle`.** -/
theorem Covered.awake (h : Covered s) (hi : s.workers[i]? = some ⟨tid, place⟩)
    (fibers : List Queued) (idle bytes : Nat)
    (hidle : idle + (if (⟨tid, place⟩ : Worker).counted then 1 else 0) =
      s.idle + if (⟨tid, place'⟩ : Worker).counted then 1 else 0)
    (hawake : (⟨tid, place'⟩ : Worker).awake = true) :
      Covered ({ s with fibers, idle, bytes }.go i tid place') := by
  refine ⟨h.idle_go hi hidle, fun _ _ => cover_pos_of_awake (w := ⟨tid, place'⟩) ?_ hawake⟩
  exact List.mem_of_getElem? (List.getElem?_set_self (List.getElem?_eq_some_iff.1 hi).1)

/-- After its search a worker is about to tickle, or no task for any thread waits. -/
theorem Covered.pick (h : Covered s) (hi : s.workers[i]? = some ⟨tid, .scan⟩) :
    Covered (s.pick i tid) := by
  unfold IOManager.pick
  by_cases htell : (search Queued.task tid s.fibers).tickleMe = true
  · simp only [htell, if_true]
    exact h.awake hi _ _ _ rfl rfl
  · have hrest : (search Queued.task tid s.fibers).rest = [] := by
      by_contra hne
      exact htell ((Sched.search_tickleMe s.fibers).2 hne)
    simp only [htell]
    refine ⟨h.idle_go hi ?_, fun ⟨q, hq, _⟩ => ?_⟩
    · cases (search Queued.task tid s.fibers).task <;> rfl
    · have hq : q ∈ (search Queued.task tid s.fibers).rest := hq
      rw [hrest] at hq
      cases hq

/-- A worker that is asleep goes on, and stays asleep. -/
theorem Covered.sleeps (h : Covered s) (hi : s.workers[i]? = some ⟨tid, place⟩) (idle : Nat)
    (hidle : idle + (if (⟨tid, place⟩ : Worker).counted then 1 else 0) =
      s.idle + if (⟨tid, place'⟩ : Worker).counted then 1 else 0)
    (hasleep : (⟨tid, place⟩ : Worker).asleep = true)
    (hawake : (⟨tid, place'⟩ : Worker).awake = (⟨tid, place⟩ : Worker).awake) :
    Covered ({ s with idle }.go i tid place') := by
  refine ⟨h.idle_go hi hidle, fun hany _ => ?_⟩
  have hcount := countP_set_add Worker.awake hi ⟨tid, place'⟩
  rw [hawake] at hcount
  have hcover := h.cover hany ⟨_, List.mem_of_getElem? hi, hasleep⟩
  unfold IOManager.cover at hcover
  show 0 < s.bytes + s.owed.length + (s.workers.set i ⟨tid, place'⟩).countP Worker.awake
  omega

/-- A worker that is asleep and not in the counter has only just searched. -/
theorem Covered.uncounted (h : Covered s) (hidle : s.idle = 0) (hw : w ∈ s.workers)
    (hasleep : w.asleep = true) :
    w.uncounted = true := by
  rcases of_decide_eq_true hasleep with hp | hp | hp
  · rw [Worker.uncounted, hp]
  · exact absurd hidle (h.idle_pos hw (by rw [Worker.counted, hp]))
  · exact absurd hidle (h.idle_pos hw (by rw [Worker.counted, hp]))

/-- A worker tests the counter in `tickle`. -/
theorem Covered.testIdle {found : Bool} (h : Covered s)
    (hi : s.workers[i]? = some ⟨tid, .tickle found⟩)
    (hheard : s.TestHeard) : Covered
    (s.go i tid (if s.idle = 0 then .after found else .write found)) := by
  by_cases hidle : s.idle = 0
  · rw [if_pos hidle]
    refine ⟨h.idle_go hi (by cases found <;> rfl), fun hany hsleep => ?_⟩
    rcases hheard with hne | hnone | hcounted | hmore
    · exact absurd hidle hne
    · exact absurd hany hnone
    · -- the worker has a task, and no other is asleep
      exfalso
      obtain ⟨w, hw, hasleep⟩ := hsleep
      rcases mem_set_cases hw with rfl | ⟨j, -, hj⟩
      · have hself := hcounted _ (List.mem_of_getElem? hi)
        cases found with
        | true => cases hasleep
        | false => cases hself
      · have hw := List.mem_of_getElem? hj
        cases (hcounted w hw).symm.trans (h.uncounted hidle hw hasleep)
    · have hcount := countP_set_add Worker.awake hi ⟨tid, .after found⟩
      have hone : (if (⟨tid, .tickle found⟩ : Worker).awake = true then 1 else 0) = 1 := rfl
      rw [hone] at hcount
      show 0 < s.bytes + s.owed.length + (s.workers.set i ⟨tid, .after found⟩).countP Worker.awake
      unfold IOManager.cover at hmore
      omega
  · rw [if_neg hidle]
    exact h.awake hi _ _ _ rfl rfl

/-- A call of `scheduler` tests the counter in `tickle`. -/
theorem Covered.test {k : Nat} (h : Covered s) (hk : s.owed[k]? = some .testing)
    (hheard : s.TestHeard) :
    Covered { s with owed := if s.idle = 0 then s.owed.eraseIdx k else s.owed.set k .writing } := by
  have hlt := (List.getElem?_eq_some_iff.1 hk).1
  refine ⟨h.idle, fun hany hsleep => ?_⟩
  by_cases hidle : s.idle = 0
  · rw [if_pos hidle]
    rcases hheard with hne | hnone | hcounted | hmore
    · exact absurd hidle hne
    · exact absurd hany hnone
    · obtain ⟨w, hw, hasleep⟩ := hsleep
      cases (hcounted w hw).symm.trans (h.uncounted hidle hw hasleep)
    · have hlen := List.length_eraseIdx_of_lt hlt
      unfold IOManager.cover at hmore
      show 0 < s.bytes + (s.owed.eraseIdx k).length + s.workers.countP Worker.awake
      omega
  · rw [if_neg hidle]
    show 0 < s.bytes + (s.owed.set k .writing).length + s.workers.countP Worker.awake
    rw [List.length_set]
    exact h.cover hany hsleep

/-- **A task is scheduled.** -/
theorem Covered.scheduler (h : Covered s) (f : FiberOrCb) (thread : Int)
    (hheard : (Move.scheduler f thread).Heard s) : Covered (s.scheduler f thread) := by
  unfold IOManager.scheduler
  by_cases hempty : s.fibers = []
  · -- the call tickles
    have hpos : ∀ fibers count, 0 < ({ s with fibers, count, owed := s.owed ++ [.testing] } :
      IOManager).cover := by
      intro fibers count
      simp only [IOManager.cover, List.length_append, List.length_singleton]
      omega
    simp only [hempty, if_true]
    split
    · exact ⟨h.idle, fun _ _ => hpos _ _⟩
    · exact ⟨h.idle, fun _ _ => hpos _ _⟩
  · simp only [hempty, if_false]
    split
    · refine ⟨h.idle, fun hwaits hsleep => ?_⟩
      obtain ⟨q, hq, hthread⟩ := hwaits
      show 0 < s.cover
      by_cases hany : s.AnyWaits
      · exact h.cover hany hsleep
      · rcases List.mem_append.1 hq with hq | hq
        · exact absurd ⟨q, hq, hthread⟩ hany
        · obtain rfl := List.mem_singleton.1 hq
          exact hheard hthread hempty hany hsleep
    · exact h

/-- **What a step keeps** when it is heard. -/
theorem Covered.next (h : Covered s) (hheard : move.Heard s) (hn : s.next move = some t) :
    Covered t := by
  cases move with
  | scheduler f thread =>
    obtain rfl := Option.some.inj hn
    exact h.scheduler f thread hheard
  | test k =>
    simp only [IOManager.next] at hn
    split at hn
    · rename_i hk
      obtain rfl := Option.some.inj hn
      exact h.test hk hheard
    · cases hn
  | write k =>
    simp only [IOManager.next] at hn
    split at hn
    · obtain rfl := Option.some.inj hn
      refine ⟨h.idle, fun _ _ => ?_⟩
      show 0 < s.bytes + 1 + _ + _
      omega
    · cases hn
  | pick i =>
    simp only [IOManager.next] at hn
    split at hn
    · rename_i hi
      obtain rfl := Option.some.inj hn
      exact h.pick hi
    · cases hn
  | testIdle i =>
    simp only [IOManager.next] at hn
    split at hn
    · rename_i hi
      obtain rfl := Option.some.inj hn
      exact h.testIdle hi hheard
    · cases hn
  | writeByte i =>
    simp only [IOManager.next] at hn
    split at hn
    · rename_i tid found hi
      obtain rfl := Option.some.inj hn
      refine ⟨h.idle_go hi (by cases found <;> rfl), fun _ _ => ?_⟩
      show 0 < s.bytes + 1 + _ + _
      omega
    · cases hn
  | finish i =>
    simp only [IOManager.next] at hn
    split at hn
    · rename_i hi
      obtain rfl := Option.some.inj hn
      exact h.awake hi _ _ _ rfl rfl
    · cases hn
  | rest i =>
    simp only [IOManager.next] at hn
    split at hn
    · rename_i tid hi
      obtain rfl := Option.some.inj hn
      exact h.sleeps hi _ rfl rfl rfl
    · cases hn
  | block i =>
    simp only [IOManager.next] at hn
    split at hn
    · rename_i tid hi
      obtain rfl := Option.some.inj hn
      exact h.sleeps hi _ rfl rfl rfl
    · cases hn
  | wake i drains =>
    simp only [IOManager.next] at hn
    split at hn
    · rename_i hi
      obtain rfl := Option.some.inj hn
      exact h.awake hi _ _ _ rfl rfl
    · cases hn
  | drain i =>
    simp only [IOManager.next] at hn
    split at hn
    · rename_i hi
      obtain rfl := Option.some.inj hn
      exact h.awake hi _ _ _ rfl rfl
    · cases hn
  | yield i =>
    simp only [IOManager.next] at hn
    split at hn
    · rename_i hi
      obtain rfl := Option.some.inj hn
      have hpos := h.idle_pos (List.mem_of_getElem? hi) rfl
      refine h.awake hi _ _ _ ?_ rfl
      show s.idle - 1 + 1 = s.idle + 0
      omega
    · cases hn

end

/-- **Sleepers are woken.**  In every run in which no task for any thread is put behind tasks for
certain threads while a worker is asleep and nothing is on the way to wake one, and in which the
tests of `tickle` are heard, a byte is pending whenever all workers execute or are blocked, one is
blocked, no call is in progress and a task for any thread waits. -/
theorem sleepers_woken {tids : List Int} {moves : List Move} {s : IOManager}
    (h : (system tids).Run (fun s move => move.Heard s) moves s) : s.Wakes := by
  have hcovered : Covered s :=
    h.invariant (I := fun _ s => Covered s) (Covered.new tids) fun _ _ _ _ h hheard hn =>
      h.next hheard hn
  rintro hplaces howed hany ⟨w, hw, hblocked⟩
  have hcover := hcovered.cover hany ⟨w, hw, by simp [Worker.asleep, hblocked]⟩
  have hawake : s.workers.countP Worker.awake = 0 := by
    refine List.countP_eq_zero.2 fun w hw => ?_
    rcases hplaces w hw with hp | hp <;> simp [Worker.awake, hp]
  rw [IOManager.cover, howed, hawake, List.length_nil] at hcover
  omega

/-- Whether a worker waits can be computed. -/
instance (s : IOManager) : Decidable s.AnyWaits :=
  inferInstanceAs (Decidable (∃ q ∈ s.fibers, q.task.thread = -1))

/-- Whether a test is heard can be computed. -/
instance (s : IOManager) : Decidable s.TestHeard :=
  inferInstanceAs (Decidable (s.idle ≠ 0 ∨ ¬ s.AnyWaits ∨ (∀ w ∈ s.workers, w.uncounted = false) ∨
    1 < s.cover))

/-- Whether a move is heard can be computed. -/
instance (s : IOManager) : (move : Move) → Decidable (move.Heard s)
  | .scheduler _ thread =>
    inferInstanceAs (Decidable (thread = -1 → s.fibers ≠ [] → ¬ s.AnyWaits →
      (∃ w ∈ s.workers, w.asleep = true) →
      0 < s.cover))
  | .test _ => inferInstanceAs (Decidable s.TestHeard)
  | .testIdle _ => inferInstanceAs (Decidable s.TestHeard)
  | .write _ => isTrue trivial
  | .pick _ => isTrue trivial
  | .writeByte _ => isTrue trivial
  | .finish _ => isTrue trivial
  | .rest _ => isTrue trivial
  | .block _ => isTrue trivial
  | .wake .. => isTrue trivial
  | .drain _ => isTrue trivial
  | .yield _ => isTrue trivial

/-- One thread is in a task and the other sleeps; then a task for any thread is scheduled. -/
def taskAlone : List Move :=
  [.scheduler (.cb (some 0)) (-1), .test 0, .pick 0, .pick 1, .rest 1, .block 1,
    .scheduler (.cb (some 1)) (-1), .test 0,
    .write 0]

/-- The places of the workers and what the pipe and the queue hold. -/
def IOManager.view (s : IOManager) : List Place × Nat × List Tickle × List Int :=
  (s.workers.map (·.place), s.bytes, s.owed, s.fibers.map (·.task.thread))

/-- There is a byte in the pipe. -/
theorem sleepers_woken_taskAlone : ∃ s, (system [1, 2]).Run (fun s move => move.Heard s) taskAlone s ∧
    s.view = ([.executing, .blocked], 1, [], [-1]) ∧ s.Wakes := by
  have hsome : ((system [1, 2]).exec (fun s move => decide (move.Heard s))
      (system [1, 2]).init taskAlone).isSome =
      true := by
    decide
  obtain ⟨s, hs⟩ := Option.isSome_iff_exists.1 hsome
  have hend : ((system [1, 2]).exec (fun s move => decide (move.Heard s))
      (system [1, 2]).init taskAlone).all
      (fun s => decide (s.view = ([.executing, .blocked], 1, [], [-1]))) = true := by
    decide
  rw [hs, Option.all_some] at hend
  have hrun : (system [1, 2]).Run (fun s move => move.Heard s) taskAlone s :=
    System.run_of_exec (fun _ _ => of_decide_eq_true) hs
  exact ⟨s, hrun, of_decide_eq_true hend, sleepers_woken hrun⟩

/-- A task for the busy thread wakes the other one, which reads the pipe empty and sleeps again;
then a task for any thread is scheduled. -/
def behindPinned : List Move :=
  [.scheduler (.cb (some 0)) (-1), .test 0, .pick 0, .pick 1, .rest 1, .block 1,
    .scheduler (.cb (some 1)) 1, .test 0,
    .write 0, .wake 1 true, .drain 1, .yield 1, .pick 1, .testIdle 1, .rest 1, .block 1,
      .scheduler (.cb (some 2)) (-1)]

/-- **A thread sleeps on** while a task it may run waits behind a task for the busy thread. -/
theorem task_behind_pinned_task : ∃ s, (system [1, 2]).Run anyStep behindPinned s ∧
    s.view = ([.executing, .blocked], 0, [], [1, -1]) ∧ ¬ s.Wakes := by
  have hsome : ((system [1, 2]).exec (fun _ _ => true)
      (system [1, 2]).init behindPinned).isSome = true := by
    decide
  obtain ⟨s, hs⟩ := Option.isSome_iff_exists.1 hsome
  have hend : ((system [1, 2]).exec (fun _ _ => true) (system [1, 2]).init behindPinned).all
      (fun s => decide (
      s.view = ([.executing, .blocked], 0, [], [1, -1]) ∧
        (∀ w ∈ s.workers, w.place = .executing ∨ w.place = .blocked) ∧
        s.AnyWaits ∧ ∃ w ∈ s.workers, w.place = .blocked)) = true := by
    decide
  rw [hs, Option.all_some] at hend
  obtain ⟨hview, hplaces, hany, hblocked⟩ := of_decide_eq_true hend
  have hbytes : s.bytes = 0 := congrArg (fun v => v.2.1) hview
  have howed : s.owed = [] := congrArg (fun v => v.2.2.1) hview
  exact ⟨s, System.run_of_exec (fun _ _ _ => trivial) hs, hview, fun hwakes =>
    hwakes hplaces howed hany hblocked hbytes⟩

end Wake
end Wuchat
