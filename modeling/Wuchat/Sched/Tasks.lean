/-
# Tasks are taken once, in order, by the right threads

The search of a loop splits the queue at the first task its thread may take (`search_some`).  From
this follows, for every order of the steps of any number of callers and loops, what `History`
says: the queue holds the tasks that were scheduled and not taken, in the order in which they were
scheduled, and a loop is in the task it took until that returns.  `tasks_taken_once` reads it off for
every step of a run.
-/

import Wuchat.Foundation.Places
import Wuchat.Sched.Scheduler

namespace Wuchat
namespace Sched

open Foundation

/-! ### The queue -/

/-- The tasks beside one task of a queue in order are those with another number. -/
theorem mem_of_split {pre post : List Queued} {q x : Queued}
    (h : (pre ++ q :: post).Pairwise fun q q' => q.id < q'.id) :
    x ∈ pre ++ post ↔ x ∈ pre ++ q :: post ∧ x.id ≠ q.id := by
  obtain ⟨-, hq, hacross⟩ := List.pairwise_append.1 h
  obtain ⟨hpost, -⟩ := List.pairwise_cons.1 hq
  rw [List.mem_append, List.mem_append, List.mem_cons]
  constructor
  · rintro (hx | hx)
    · exact ⟨.inl hx, Nat.ne_of_lt (hacross x hx q List.mem_cons_self)⟩
    · exact ⟨.inr (.inr hx), Nat.ne_of_gt (hpost x hx)⟩
  · rintro ⟨hx | rfl | hx, hne⟩
    · exact .inl hx
    · exact absurd rfl hne
    · exact .inr hx

/-! ### What the log says -/

/-- The task with a number was scheduled. -/
def Scheduled (log : List Event) (id : Nat) (task : SchedulerTask FiberOrCb) : Prop :=
    ∃ tickled, .scheduled id task tickled ∈ log

/-- A loop took the task. -/
def TakenBy (log : List Event) (i id : Nat) : Prop := ∃ tickled, .taken i id tickled ∈ log

/-- The task was taken. -/
def Taken (log : List Event) (id : Nat) : Prop := ∃ i, TakenBy log i id

/-- The loop is in the task: it took it, and it has not returned. -/
def Executing (log : List Event) (i id : Nat) : Prop := TakenBy log i id ∧ .finished i id ∉ log

/-- What is asked of a step, given those before it.  A task is taken after it was scheduled, once, by a loop
whose thread may take it, and no task that waits for such a thread was scheduled earlier; a loop goes
without a task only when none waits for its thread. -/
def Proper (tids : List Int) (before : List Event) : Event → Prop
  | .scheduled id task _ => task.job.NonEmpty ∧ ∀ id' task', Scheduled before id' task' → id' < id
  | .taken i id _ => ∃ tid task, tids[i]? = some tid ∧ Scheduled before id task ∧ task.Eligible tid ∧
      ¬ Taken before id ∧ ∀ id' task', Scheduled before id' task' → ¬ Taken before id' → task'.Eligible tid → id ≤ id'
  | .passed i _ => ∃ tid, tids[i]? = some tid ∧
      ∀ id task, Scheduled before id task → ¬ Taken before id → ¬ task.Eligible tid
  | .finished i id => Executing before i id
  | .ignored _ => True

/-- The step takes, schedules and finishes nothing. -/
def Event.Silent : Event → Prop
  | .ignored _ => True
  | .passed _ _ => True
  | _ => False

/-- The task waits in the queue. -/
def Scheduler.Waits (s : Scheduler) (id : Nat) (task : SchedulerTask FiberOrCb) : Prop :=
    ∃ q ∈ s.fibers, q.id = id ∧ q.task = task

/-- What the log says about the scheduler. -/
structure History (tids : List Int) (s : Scheduler) : Prop where
  tids_eq : s.loops.map Loop.tid = tids
  order : s.fibers.Pairwise fun q q' => q.id < q'.id
  scheduled_lt : ∀ id task, Scheduled s.log id task → id < s.count
  taken_lt : ∀ id, Taken s.log id → id < s.count
  finished_taken : ∀ i id, .finished i id ∈ s.log → Taken s.log id
  waits : ∀ id task, s.Waits id task ↔ Scheduled s.log id task ∧ ¬ Taken s.log id
  executing : ∀ i id, (∃ tid, s.loops[i]? = some ⟨tid, .executing id⟩) ↔ Executing s.log i id
  active : s.active = s.loops.countP Loop.isExecuting
  proper : Along (Proper tids) s.log

section

variable {log : List Event} {id i : Nat} {task : SchedulerTask FiberOrCb} {e : Event}

/-- What was scheduled behind one more event. -/
theorem scheduled_snoc : Scheduled (log ++ [e]) id task ↔
    Scheduled log id task ∨ ∃ tickled, e = .scheduled id task tickled := by
  simp only [Scheduled, List.mem_append, List.mem_singleton, exists_or, eq_comm]

/-- What a loop has taken behind one more event. -/
theorem takenBy_snoc : TakenBy (log ++ [e]) i id ↔ TakenBy log i id ∨ ∃ tickled, e = .taken i id tickled := by
  simp only [TakenBy, List.mem_append, List.mem_singleton, exists_or, eq_comm]

/-- What was taken at all behind one more event. -/
theorem taken_snoc : Taken (log ++ [e]) id ↔ Taken log id ∨ ∃ i tickled, e = .taken i id tickled := by
  simp only [Taken, takenBy_snoc, exists_or]

end

/-! ### The loops -/

section

variable {loops : List Loop} {i j : Nat} {tid : Int} {l : Loop} {place : Place}

/-- The loops behind a change of one. -/
theorem getElem?_set_loop (h : loops[i]? = some l) (l' : Loop) :
    (loops.set i l')[j]? = if j = i then some l' else loops[j]? := by
  obtain ⟨hlt, -⟩ := List.getElem?_eq_some_iff.1 h
  rw [List.getElem?_set]
  by_cases hj : i = j
  · rw [if_pos hj, if_pos hj.symm, if_pos hlt]
  · rw [if_neg hj, if_neg fun h => hj h.symm]

/-- A loop keeps its thread. -/
theorem map_tid_set (h : loops[i]? = some l) : (loops.set i ⟨l.tid, place⟩).map Loop.tid = loops.map Loop.tid := by
  refine List.ext_getElem? fun j => ?_
  rw [List.getElem?_map, List.getElem?_map, getElem?_set_loop h]
  split
  · rename_i hj
    rw [hj, h]
    rfl
  · rfl

/-- Which loop is in a task after one has moved. -/
theorem executing_set (h : loops[i]? = some l) {id : Nat} :
    (∃ t, (loops.set i ⟨tid, place⟩)[j]? = some ⟨t, .executing id⟩) ↔
      if j = i then place = .executing id else ∃ t, loops[j]? = some ⟨t, .executing id⟩ := by
  rw [getElem?_set_loop h]
  split
  · simp
  · rfl

/-- The same loops are in the same tasks. -/
structure SameTasks (loops loops' : List Loop) : Prop where
  tids : loops'.map Loop.tid = loops.map Loop.tid
  executing : ∀ (i : Nat) (tid : Int) (id : Nat), loops'[i]? = some ⟨tid, .executing id⟩ ↔
    loops[i]? = some ⟨tid, .executing id⟩
  countP : loops'.countP Loop.isExecuting = loops.countP Loop.isExecuting

/-- A loop moves that is in no task, before and after. -/
theorem sameTasks_set (h : loops[i]? = some l) (hl : l.isExecuting = false)
    (hplace : (⟨l.tid, place⟩ : Loop).isExecuting = false) : SameTasks loops (loops.set i ⟨l.tid, place⟩) := by
  refine ⟨map_tid_set h, fun j tid id => ?_, ?_⟩
  · rw [getElem?_set_loop h]
    split
    · rename_i hj
      rw [hj, h, Option.some.injEq, Option.some.injEq]
      constructor
      · intro heq
        rw [heq] at hplace
        cases hplace
      · intro heq
        rw [heq] at hl
        cases hl
    · rfl
  · have hcount := countP_set_add Loop.isExecuting h ⟨l.tid, place⟩
    rw [hl, hplace] at hcount
    exact hcount

end

namespace History

variable {tids : List Int} {s : Scheduler} {i id : Nat} {tid : Int}

/-- Nothing has been scheduled. -/
theorem new (tids : List Int) : History tids (.new tids) := by
  have hnone : ∀ e : Event, e ∉ (Scheduler.new tids).log := fun e => List.not_mem_nil
  have hready : ∀ (j : Nat) (l : Loop), (Scheduler.new tids).loops[j]? = some l → l.place = .ready := by
    intro j l hl
    obtain ⟨tid, -, rfl⟩ := List.mem_map.1 (List.mem_of_getElem? hl)
    rfl
  constructor
  · show (tids.map _).map Loop.tid = tids
    rw [List.map_map]
    exact List.map_id tids
  · exact List.Pairwise.nil
  · rintro id task ⟨_, h⟩
    exact absurd h (hnone _)
  · rintro id ⟨_, _, h⟩
    exact absurd h (hnone _)
  · exact fun i id h => absurd h (hnone _)
  · intro id task
    constructor
    · rintro ⟨q, hq, -⟩
      exact absurd hq List.not_mem_nil
    · rintro ⟨⟨_, h⟩, -⟩
      exact absurd h (hnone _)
  · intro i id
    constructor
    · rintro ⟨tid, h⟩
      cases hready i _ h
    · rintro ⟨⟨_, h⟩, -⟩
      exact absurd h (hnone _)
  · refine Eq.symm (List.countP_eq_zero.2 fun l hl => ?_)
    obtain ⟨j, hj⟩ := List.getElem?_of_mem hl
    rw [Loop.isExecuting, hready j l hj]
    exact Bool.false_ne_true
  · exact .nil

/-- The id of the thread of a loop. -/
theorem tid_of_loop (h : History tids s) {place : Place} (hl : s.loops[i]? = some ⟨tid, place⟩) :
    tids[i]? = some tid := by
  rw [← h.tids_eq, List.getElem?_map, hl]
  rfl

/-- **A task is scheduled.** -/
theorem scheduled (h : History tids s) {task : SchedulerTask FiberOrCb} (hne : task.job.NonEmpty) (tickled : Bool) :
    History tids { s with
      fibers := s.fibers ++ [⟨s.count, task, hne⟩]
      count := s.count + 1
      log := s.log ++ [.scheduled s.count task tickled] } := by
  have hcount : ¬ Taken s.log s.count := fun ht => Nat.lt_irrefl _ (h.taken_lt _ ht)
  have htaken : ∀ id, Taken (s.log ++ [.scheduled s.count task tickled]) id ↔ Taken s.log id := by
    intro id
    simp [taken_snoc]
  have hlt : ∀ q ∈ s.fibers, q.id < s.count := by
    intro q hq
    exact h.scheduled_lt q.id q.task ((h.waits q.id q.task).1 ⟨q, hq, rfl, rfl⟩).1
  constructor
  · exact h.tids_eq
  · refine List.pairwise_append.2 ⟨h.order, List.pairwise_singleton _ _, fun q hq q' hq' => ?_⟩
    rw [List.mem_singleton.1 hq']
    exact hlt q hq
  · intro id task' hs
    rcases scheduled_snoc.1 hs with hs | ⟨_, he⟩
    · exact Nat.lt_succ_of_lt (h.scheduled_lt id task' hs)
    · cases he
      exact Nat.lt_succ_self _
  · intro id ht
    exact Nat.lt_succ_of_lt (h.taken_lt id ((htaken id).1 ht))
  · intro i id hf
    rw [List.mem_append, List.mem_singleton] at hf
    exact (htaken id).2 (h.finished_taken i id (hf.resolve_right nofun))
  · intro id task'
    rw [htaken, scheduled_snoc, or_and_right, ← h.waits]
    constructor
    · rintro ⟨q, hq, rfl, rfl⟩
      rcases List.mem_append.1 hq with hq | hq
      · exact .inl ⟨q, hq, rfl, rfl⟩
      · rw [List.mem_singleton.1 hq]
        exact .inr ⟨⟨tickled, rfl⟩, hcount⟩
    · rintro (⟨q, hq, rfl, rfl⟩ | ⟨⟨_, he⟩, -⟩)
      · exact ⟨q, List.mem_append_left _ hq, rfl, rfl⟩
      · cases he
        exact ⟨_, List.mem_append_right _ (List.mem_singleton_self _), rfl, rfl⟩
  · intro i id
    rw [h.executing]
    simp [Executing, takenBy_snoc]
  · exact h.active
  · exact h.proper.snoc ⟨hne, h.scheduled_lt⟩

/-- A step that takes, schedules and finishes nothing keeps what the log says. -/
theorem quiet (h : History tids s) {s' : Scheduler} {e : List Event} (hfibers : s'.fibers = s.fibers)
    (hcount : s'.count = s.count) (hactive : s'.active = s.active) (hlog : s'.log = s.log ++ e)
    (hloops : SameTasks s.loops s'.loops) (he : ∀ x ∈ e, x.Silent) (hproper : Along (Proper tids) s'.log) :
    History tids s' := by
  have hmem : ∀ x : Event, ¬ x.Silent → (x ∈ s'.log ↔ x ∈ s.log) := by
    intro x hx
    rw [hlog, List.mem_append]
    exact or_iff_left fun hin => hx (he x hin)
  have hs : ∀ id task, Scheduled s'.log id task ↔ Scheduled s.log id task :=
    fun _ _ => exists_congr fun _ => hmem _ id
  have ht : ∀ i id, TakenBy s'.log i id ↔ TakenBy s.log i id :=
    fun _ _ => exists_congr fun _ => hmem _ id
  have hf : ∀ i id, .finished i id ∈ s'.log ↔ .finished i id ∈ s.log := fun _ _ => hmem _ id
  constructor
  · exact hloops.tids.trans h.tids_eq
  · exact hfibers ▸ h.order
  · exact fun id task hx => hcount ▸ h.scheduled_lt id task ((hs id task).1 hx)
  · rintro id ⟨i, hx⟩
    exact hcount ▸ h.taken_lt id ⟨i, (ht i id).1 hx⟩
  · intro i id hx
    obtain ⟨j, hj⟩ := h.finished_taken i id ((hf i id).1 hx)
    exact ⟨j, (ht j id).2 hj⟩
  · intro id task
    rw [Scheduler.Waits, hfibers, hs, Taken]
    simp only [ht]
    exact h.waits id task
  · intro i id
    rw [Executing, ht, hf]
    simp only [hloops.executing]
    exact h.executing i id
  · exact hactive.trans (h.active.trans hloops.countP.symm)
  · exact hproper

/-- **A loop takes a task.** -/
theorem taken (h : History tids s) (hl : s.loops[i]? = some ⟨tid, .ready⟩) {q : Queued} {pre post : List Queued}
    (hq : q.task.Eligible tid) (hfibers : s.fibers = pre ++ q :: post) (hpre : ∀ x ∈ pre, ¬ x.task.Eligible tid)
    (tickled : Bool) : History tids { s.go i tid (.executing q.id) with
      fibers := pre ++ post
      active := s.active + 1
      log := s.log ++ [.taken i q.id tickled] } := by
  have hmem : q ∈ s.fibers := by
    rw [hfibers]
    exact List.mem_append_right _ List.mem_cons_self
  obtain ⟨hsched, hnot⟩ := (h.waits q.id q.task).1 ⟨q, hmem, rfl, rfl⟩
  have hs : ∀ id task, Scheduled (s.log ++ [.taken i q.id tickled]) id task ↔ Scheduled s.log id task := by
    intro id task
    simp [scheduled_snoc]
  have ht : ∀ id, Taken (s.log ++ [.taken i q.id tickled]) id ↔ Taken s.log id ∨ q.id = id := by
    intro id
    simp [taken_snoc]
  have hby : ∀ j id, TakenBy (s.log ++ [.taken i q.id tickled]) j id ↔ TakenBy s.log j id ∨ (i = j ∧ q.id = id) := by
    intro j id
    simp [takenBy_snoc]
  have hf : ∀ j id, .finished j id ∈ s.log ++ [.taken i q.id tickled] ↔ .finished j id ∈ s.log := by
    intro j id
    simp
  have horder := h.order
  rw [hfibers] at horder
  obtain ⟨hordpre, hordq, hacross⟩ := List.pairwise_append.1 horder
  obtain ⟨hqpost, hordpost⟩ := List.pairwise_cons.1 hordq
  constructor
  · exact (map_tid_set hl).trans h.tids_eq
  · exact List.pairwise_append.2 ⟨hordpre, hordpost, fun x hx y hy => hacross x hx y (List.mem_cons_of_mem q hy)⟩
  · exact fun id task hx => h.scheduled_lt id task ((hs id task).1 hx)
  · intro id hx
    rcases (ht id).1 hx with hx | rfl
    · exact h.taken_lt id hx
    · exact h.scheduled_lt _ _ hsched
  · exact fun j id hx => (ht id).2 (.inl (h.finished_taken j id ((hf j id).1 hx)))
  · intro id task
    rw [hs, ht, not_or, ← and_assoc, ← h.waits, Scheduler.Waits, Scheduler.Waits, hfibers]
    constructor
    · rintro ⟨x, hx, rfl, rfl⟩
      obtain ⟨hx, hne⟩ := (mem_of_split horder).1 hx
      exact ⟨⟨x, hx, rfl, rfl⟩, fun heq => hne heq.symm⟩
    · rintro ⟨⟨x, hx, rfl, rfl⟩, hne⟩
      exact ⟨x, (mem_of_split horder).2 ⟨hx, fun heq => hne heq.symm⟩, rfl, rfl⟩
  · intro j id
    rw [Executing, hby, hf]
    refine (executing_set hl).trans ?_
    by_cases hj : j = i
    · subst hj
      rw [if_pos rfl, Place.executing.injEq]
      constructor
      · rintro rfl
        exact ⟨.inr ⟨rfl, rfl⟩, fun hfin => hnot (h.finished_taken _ _ hfin)⟩
      · rintro ⟨hx | ⟨-, rfl⟩, hfin⟩
        · -- a loop at its start is in no other task
          obtain ⟨tid', hx⟩ := (h.executing j id).2 ⟨hx, hfin⟩
          rw [hl] at hx
          cases hx
        · rfl
    · rw [if_neg hj, h.executing]
      constructor
      · rintro ⟨hx, hfin⟩
        exact ⟨.inl hx, hfin⟩
      · rintro ⟨hx | ⟨heq, -⟩, hfin⟩
        · exact ⟨hx, hfin⟩
        · exact absurd heq.symm hj
  · have hcount := countP_set_add Loop.isExecuting hl ⟨tid, .executing q.id⟩
    have hactive := h.active
    simp only [Loop.isExecuting, if_true, Bool.false_eq_true, if_false, Nat.add_zero] at hcount
    show s.active + 1 = (s.loops.set i ⟨tid, .executing q.id⟩).countP Loop.isExecuting
    omega
  · refine h.proper.snoc ⟨tid, q.task, h.tid_of_loop hl, hsched, hq, hnot, fun id task hid hfree hel => ?_⟩
    obtain ⟨x, hx, rfl, rfl⟩ := (h.waits id task).2 ⟨hid, hfree⟩
    rw [hfibers] at hx
    rcases List.mem_append.1 hx with hx | hx
    · exact absurd hel (hpre x hx)
    · rcases List.mem_cons.1 hx with rfl | hx
      · exact Nat.le_refl _
      · exact Nat.le_of_lt (hqpost x hx)

/-- **A task returns.** -/
theorem finished (h : History tids s) (hl : s.loops[i]? = some ⟨tid, .executing id⟩) :
    History tids { s.go i tid .ready with active := s.active - 1, log := s.log ++ [.finished i id] } := by
  have hex := (h.executing i id).1 ⟨tid, hl⟩
  have hs : ∀ id' task, Scheduled (s.log ++ [.finished i id]) id' task ↔ Scheduled s.log id' task := by
    intro id' task
    simp [scheduled_snoc]
  have ht : ∀ id', Taken (s.log ++ [.finished i id]) id' ↔ Taken s.log id' := by
    intro id'
    simp [taken_snoc]
  have hby : ∀ j id', TakenBy (s.log ++ [.finished i id]) j id' ↔ TakenBy s.log j id' := by
    intro j id'
    simp [takenBy_snoc]
  constructor
  · exact (map_tid_set hl).trans h.tids_eq
  · exact h.order
  · exact fun id' task hx => h.scheduled_lt id' task ((hs id' task).1 hx)
  · exact fun id' hx => h.taken_lt id' ((ht id').1 hx)
  · intro j id' hx
    rw [ht]
    rcases List.mem_append.1 hx with hx | hx
    · exact h.finished_taken j id' hx
    · cases List.mem_singleton.1 hx
      exact ⟨i, hex.1⟩
  · intro id' task
    rw [hs, ht]
    exact h.waits id' task
  · intro j id'
    rw [Executing, hby, List.mem_append, List.mem_singleton, Event.finished.injEq, not_or]
    refine (executing_set hl).trans ?_
    by_cases hj : j = i
    · subst hj
      rw [if_pos rfl]
      constructor
      · intro heq
        cases heq
      · rintro ⟨hx, hfin, hne⟩
        -- the loop was in this task and in no other one
        obtain ⟨tid', hx⟩ := (h.executing j id').2 ⟨hx, hfin⟩
        rw [hl] at hx
        cases hx
        exact absurd ⟨rfl, rfl⟩ hne
    · rw [if_neg hj, h.executing]
      constructor
      · rintro ⟨hx, hfin⟩
        exact ⟨hx, hfin, fun heq => hj heq.1⟩
      · rintro ⟨hx, hfin, -⟩
        exact ⟨hx, hfin⟩
  · have hcount := countP_set_add Loop.isExecuting hl ⟨tid, .ready⟩
    have hactive := h.active
    simp only [Loop.isExecuting, if_true, Bool.false_eq_true, if_false, Nat.add_zero] at hcount
    show s.active - 1 = (s.loops.set i ⟨tid, .ready⟩).countP Loop.isExecuting
    omega
  · exact h.proper.snoc hex

/-- **Every step keeps what the log says.** -/
theorem step (h : History tids s) {move : Move} {s' : Scheduler} (hn : s.next move = some s') : History tids s' := by
  cases move with
  | scheduler f thread =>
    obtain rfl := Option.some.inj hn
    rw [Scheduler.scheduler]
    split
    · rename_i hne
      exact h.scheduled hne _
    · refine h.quiet rfl rfl rfl rfl ⟨rfl, fun _ _ _ => Iff.rfl, rfl⟩ (fun x hx => ?_) (h.proper.snoc trivial)
      rw [List.mem_singleton.1 hx]
      exact trivial
  | pick i =>
    rw [Scheduler.next, Scheduler.pick] at hn
    split at hn
    · rename_i tid hl
      dsimp only at hn
      split at hn
      · rename_i q hq
        obtain rfl := Option.some.inj hn
        obtain ⟨hel, pre, post, hfibers, hrest, hpre⟩ := search_some hq
        rw [hrest]
        exact h.taken hl hel hfibers hpre _
      · rename_i hnone
        obtain rfl := Option.some.inj hn
        obtain ⟨hrest, hall⟩ := search_none hnone
        refine h.quiet hrest rfl rfl rfl (sameTasks_set hl rfl rfl) (fun x hx => ?_) (h.proper.snoc ?_)
        · rw [List.mem_singleton.1 hx]
          exact trivial
        · refine ⟨tid, h.tid_of_loop hl, fun id task hs ht => ?_⟩
          obtain ⟨q, hq, rfl, rfl⟩ := (h.waits id task).2 ⟨hs, ht⟩
          exact hall q hq
    · cases hn
  | rest i terminated =>
    rw [Scheduler.next, Scheduler.rest] at hn
    split at hn
    · rename_i tid hl
      obtain rfl := Option.some.inj hn
      have hnil : ∀ x ∈ ([] : List Event), x.Silent := fun x hx => absurd hx List.not_mem_nil
      cases terminated with
      | true => exact h.quiet rfl rfl rfl (List.append_nil _).symm (sameTasks_set hl rfl rfl) hnil h.proper
      | false => exact h.quiet rfl rfl rfl (List.append_nil _).symm (sameTasks_set hl rfl rfl) hnil h.proper
    · cases hn
  | back i =>
    rw [Scheduler.next, Scheduler.back] at hn
    split at hn
    · rename_i tid id hl
      obtain rfl := Option.some.inj hn
      exact h.finished hl
    · rename_i tid hl
      obtain rfl := Option.some.inj hn
      have hnil : ∀ x ∈ ([] : List Event), x.Silent := fun x hx => absurd hx List.not_mem_nil
      exact h.quiet rfl rfl rfl (List.append_nil _).symm (sameTasks_set hl rfl rfl) hnil h.proper
    · cases hn

end History

/-- The history holds in every run. -/
theorem history_of_run {tids : List Int} {moves : List Move} {s : Scheduler}
    (hrun : (system tids).Run anyStep moves s) : History tids s := by
  refine hrun.invariant (I := fun _ s => History tids s) (.new tids) ?_
  intro _ u move v h _ hnext
  exact h.step hnext

/-- **Tasks are taken once, in order, by the right threads.**  For every interleaving of `scheduler` calls and of the
steps of any number of `run` loops: a task is taken at most once, after it was scheduled, by a loop whose
thread it is for, and it is the earliest scheduled one of those that wait and are for that thread; the
queue holds exactly the tasks that were scheduled and not taken, in the order in which they were
scheduled; and `m_activeThreadCount` is the number of loops in a task, each of which is in the task
it took and has not returned from. -/
theorem tasks_taken_once {tids : List Int} {moves : List Move} {s : Scheduler}
    (hrun : (system tids).Run anyStep moves s) :
    (∀ pre e post, s.log = pre ++ e :: post → Proper tids pre e) ∧
    (∀ id task, s.Waits id task ↔ Scheduled s.log id task ∧ ¬ Taken s.log id) ∧
    (s.fibers.Pairwise fun q q' => q.id < q'.id) ∧
    s.active = s.loops.countP Loop.isExecuting ∧
    ∀ i id, (∃ tid, s.loops[i]? = some ⟨tid, .executing id⟩) ↔ Executing s.log i id := by
  have h := history_of_run hrun
  exact ⟨fun pre e post heq => h.proper.at heq, h.waits, h.order, h.active, h.executing⟩

/-- A task for thread 8, one for any thread and a null fiber; the loop of thread 7 takes the second one and the loop
of thread 8 the first one. -/
def pinnedTask : List Move :=
  [.scheduler (.cb (some 0)) 8, .scheduler (.fiber (some 1)) (-1), .scheduler (.fiber none) (-1), .pick 0, .pick 1,
    .back 0, .pick 0, .rest 0 false]

/-- The steps before the loop of thread 7 takes its task. -/
def pinnedTaskLog : List Event :=
  [.scheduled 0 ⟨.cb (some 0), 8⟩ true, .scheduled 1 ⟨.fiber (some 1), -1⟩ false, .ignored false]

/-- In that run the task that loop takes was not taken before, and one task is left executing. -/
theorem tasks_taken_once_pinnedTask : ∃ s, (system [7, 8]).Run anyStep pinnedTask s ∧
    s.log = pinnedTaskLog ++ .taken 0 1 true :: [.taken 1 0 false, .finished 0 1, .passed 0 false] ∧
    ¬ Taken pinnedTaskLog 1 ∧ s.active = 1 ∧ s.active = s.loops.countP Loop.isExecuting := by
  have hsome : ((system [7, 8]).exec (fun _ _ => true) (system [7, 8]).init pinnedTask).isSome = true := by
    decide
  obtain ⟨s, hs⟩ := Option.isSome_iff_exists.1 hsome
  have hend : ((system [7, 8]).exec (fun _ _ => true) (system [7, 8]).init pinnedTask).all (fun s => decide (
      s.log = pinnedTaskLog ++ .taken 0 1 true :: [.taken 1 0 false, .finished 0 1, .passed 0 false] ∧
      s.active = 1)) = true := by decide
  rw [hs] at hend
  obtain ⟨hlog, hactive⟩ := of_decide_eq_true hend
  have hrun : (system [7, 8]).Run anyStep pinnedTask s := System.run_of_exec (fun _ _ _ => trivial) hs
  obtain ⟨hproper, -, -, hcount, -⟩ := tasks_taken_once hrun
  obtain ⟨tid, task, -, -, -, hnot, -⟩ := hproper _ _ _ hlog
  exact ⟨s, hrun, hlog, hnot, hactive, hcount⟩

end Sched
end Wuchat
