/-
# Fibers that give themselves up

`fiber.cpp`, `scheduler.cpp`, `hook.cpp`: a fiber that wants to wait first makes itself
known, and then yields.  It puts itself into the queue (`scheduler` on itself), registers
itself with `addEvent`, or adds a timer whose callback schedules it (`sleep`).  `yield` sets
its state to `READY` and then leaves its stack with `swapcontext`.  Each thread runs a loop
that takes tasks from the queue and resumes them, and `resume` asserts that the state is
`READY`.

Any number of loops run, and any number of fibers, and their steps interleave; each
assignment to a state, each change of the queue, and each `swapcontext` is a step of its
own.  An event or a timer may come at any time after the registration.  The idle fibers are
not modelled, for they are never in the queue, and neither is the fiber that runs the
callback of a sleep, which only schedules the sleeper and ends.

Every fiber has one owner (`Owned`): the one task or registration that refers to it, or the
loop that executes it.  From the time it makes itself known to the end of its `swapcontext`
it has both.  A run is safe, no assertion fails and no fiber executes on two threads, if and
only if no loop resumes a fiber in that window (`safe_iff`), and nothing in the code keeps a
loop from it (`resumes_running_fiber`).
-/

import Mathlib.Logic.Function.Basic
import Wuchat.Foundation.Places
import Wuchat.Foundation.System

namespace Wuchat
namespace Fibers

open Foundation

/-- `Fiber::State`. -/
inductive State
  | READY
  | RUNNING
  | TERM
  deriving DecidableEq, Repr

/-- What a task, an event or a timer holds: a fiber, the callback of a sleep, which schedules its
fiber, or another function. -/
inductive Body
  | fiber (f : Nat)
  | wake (f : Nat)
  | fn
  deriving DecidableEq, Repr

/-- The fiber it refers to. -/
def Body.fiber? : Body → Option Nat
  | .fiber f => some f
  | .wake f => some f
  | .fn => none

/-- `SchedulerTask`; the thread -1 stands for any. -/
structure Task where
  body : Body
  thread : Int
  deriving DecidableEq, Repr

/-- The thread with an id may take the task. -/
def Task.eligible (tid : Int) (task : Task) : Bool := decide (task.thread = -1 ∨ task.thread = tid)

/-- Where a loop is: at its start, with a task it is about to resume, or in a fiber.  The fiber may
have made itself known to others, and it may have set its state in `yield`. -/
inductive Place
  | ready
  | took (body : Body)
  | running (f : Nat)
  | published (f : Nat)
  | leaving (f : Nat)
  deriving DecidableEq, Repr

/-- The fiber that executes. -/
def Place.on : Place → Option Nat
  | .running f => some f
  | .published f => some f
  | .leaving f => some f
  | _ => none

/-- The fiber that has made itself known and has not left its stack. -/
def Place.window : Place → Option Nat
  | .published f => some f
  | .leaving f => some f
  | _ => none

/-- A loop of `run`, with the id of its thread. -/
structure Loop where
  tid : Int
  place : Place
  deriving DecidableEq, Repr

/-- The fibers with their states, `m_fibers`, what events and timers hold, and the loops; `aborted`
after an assertion has failed. -/
structure Pool where
  states : Nat → State
  count : Nat
  queue : List Task
  held : List Body
  loops : List Loop
  aborted : Bool

namespace Pool

variable (s : Pool)

/-- Loops on the threads with some ids. -/
def new (tids : List Int) : Pool :=
  ⟨fun _ => .TERM, 0, [], [], tids.map fun tid => ⟨tid, .ready⟩, false⟩

/-- A loop comes to a place. -/
def go (i : Nat) (tid : Int) (place : Place) : Pool := { s with loops := s.loops.set i ⟨tid, place⟩ }

/-- A fiber comes to a state. -/
def setState (f : Nat) (state : State) : Pool := { s with states := Function.update s.states f state }

/-- `scheduler(f, thread)`. -/
def scheduler (body : Body) (thread : Int) : Pool := { s with queue := s.queue ++ [⟨body, thread⟩] }

/-- An event or a timer holds something. -/
def hold (body : Body) : Pool := { s with held := s.held ++ [body] }

/-- `Fiber(cb)`: the new fiber has the number `count`. -/
def newFiber : Pool := { s.setState s.count .READY with count := s.count + 1 }

/-- The event or the timer comes: what it held is scheduled. -/
def release (k : Nat) (body : Body) : Pool := { s with held := s.held.eraseIdx k }.scheduler body (-1)

/-- The loop `i` takes the first task it may take, if there is one. -/
def pick (i : Nat) (tid : Int) : Pool :=
  match s.queue.find? (Task.eligible tid) with
  | some task => { s with queue := s.queue.eraseP (Task.eligible tid) }.go i tid (.took task.body)
  | none => s

/-- The loop `i` resumes what it took.  A function runs in a new fiber; a fiber has to be `READY`.
-/
def resume (i : Nat) (tid : Int) : Body → Pool
  | .fn => (s.newFiber.setState s.count .RUNNING).go i tid (.running s.count)
  | .wake f => (s.scheduler (.fiber f) (-1)).go i tid .ready
  | .fiber f =>
    if s.states f = .READY then (s.setState f .RUNNING).go i tid (.running f)
    else { s with aborted := true }

end Pool

/-- The steps: others schedule functions and fibers and add events and timers, events and timers
come, the loops take and resume tasks, and the fibers on them make themselves known, yield and end.
-/
inductive Move
  | spawn (thread : Int)
  | create (thread : Int)
  | hold
  | release (k : Nat)
  | pick (i : Nat)
  | resume (i : Nat)
  | scheduler (i : Nat) (thread : Int)
  | addEvent (i : Nat)
  | sleep (i : Nat)
  | setReady (i : Nat)
  | swapcontext (i : Nat)
  | finish (i : Nat)
  deriving DecidableEq, Repr

/-- The state after a step; there is none after an assertion has failed. -/
def Pool.next (s : Pool) (move : Move) : Option Pool :=
  if s.aborted then none
  else match move with
  | .spawn thread => some (s.scheduler .fn thread)
  | .create thread => some (s.newFiber.scheduler (.fiber s.count) thread)
  | .hold => some (s.hold .fn)
  | .release k => s.held[k]?.map (s.release k)
  | .pick i =>
    match s.loops[i]? with
    | some ⟨tid, .ready⟩ => some (s.pick i tid)
    | _ => none
  | .resume i =>
    match s.loops[i]? with
    | some ⟨tid, .took body⟩ => some (s.resume i tid body)
    | _ => none
  | .scheduler i thread =>
    match s.loops[i]? with
    | some ⟨tid, .running f⟩ => some ((s.scheduler (.fiber f) thread).go i tid (.published f))
    | _ => none
  | .addEvent i =>
    match s.loops[i]? with
    | some ⟨tid, .running f⟩ => some ((s.hold (.fiber f)).go i tid (.published f))
    | _ => none
  | .sleep i =>
    match s.loops[i]? with
    | some ⟨tid, .running f⟩ => some ((s.hold (.wake f)).go i tid (.published f))
    | _ => none
  | .setReady i =>
    match s.loops[i]? with
    | some ⟨tid, .published f⟩ => some ((s.setState f .READY).go i tid (.leaving f))
    | _ => none
  | .swapcontext i =>
    match s.loops[i]? with
    | some ⟨tid, .leaving _⟩ => some (s.go i tid .ready)
    | _ => none
  | .finish i =>
    match s.loops[i]? with
    | some ⟨tid, .running f⟩ => some ((s.setState f .TERM).go i tid .ready)
    | _ => none

/-- The fibers as a system. -/
def system (tids : List Int) : System Pool Move := ⟨.new tids, Pool.next⟩

/-- No assertion of `resume` has failed, and no fiber executes on two threads. -/
structure Pool.Safe (s : Pool) : Prop where
  asserted : s.aborted = false
  oneThread : ∀ (i j : Nat) (l l' : Loop) (f : Nat), s.loops[i]? = some l → s.loops[j]? = some l' →
    l.place.on = some f → l'.place.on = some f → i = j

/-- A loop resumes a fiber only when no loop is between the time it made itself known and its
`swapcontext`. -/
def Move.Apart (s : Pool) : Move → Prop
  | .resume i => ∀ l ∈ s.loops[i]?, ∀ l' ∈ s.loops, ∀ f ∈ l'.place.window, l.place ≠ .took (.fiber f)
  | _ => True

/-! ### Every fiber has one owner -/

/-- The fiber a loop owns: the one its task refers to, or the one it executes and that has not made
itself known. -/
def Place.token : Place → Option Nat
  | .took body => body.fiber?
  | .running f => some f
  | _ => none

/-- The fibers that tasks refer to, those that events and timers refer to, and those that loops own.
-/
def Pool.tokens (s : Pool) : List Nat :=
  s.queue.filterMap (·.body.fiber?) ++ s.held.filterMap Body.fiber? ++
    s.loops.filterMap (·.place.token)

/-- The fibers that execute. -/
def Pool.ons (s : Pool) : List Nat := s.loops.filterMap (·.place.on)

/-- The state of the fiber on a loop. -/
def Pool.Fits (s : Pool) (l : Loop) : Prop :=
  match l.place with
  | .running f => s.states f = .RUNNING ∧ f < s.count
  | .published f => s.states f = .RUNNING ∧ f < s.count
  | .leaving f => s.states f = .READY ∧ f < s.count
  | _ => True

/-- Every fiber has at most one owner and executes on at most one loop, and what is owned and does
not execute is `READY`. -/
structure Owned (s : Pool) : Prop where
  tokens_nodup : s.tokens.Nodup
  ons_nodup : s.ons.Nodup
  known : ∀ f ∈ s.tokens, f < s.count
  fits : ∀ l ∈ s.loops, s.Fits l
  ready : ∀ f ∈ s.tokens, f ∉ s.ons → s.states f = .READY
  asserted : s.aborted = false

section

variable {s t : Pool} {move : Move} {i f : Nat} {tid : Int} {place place' : Place}

/-- In a new pool every fiber has an owner. -/
theorem Owned.new (tids : List Int) : Owned (Pool.new tids) := by
  have hplace : ∀ l ∈ (Pool.new tids).loops, l.place = .ready := by
    intro l hl
    obtain ⟨tid, -, rfl⟩ := List.mem_map.1 hl
    rfl
  have htokens : (Pool.new tids).tokens = [] := by simp [Pool.tokens, Pool.new, Place.token]
  have hons : (Pool.new tids).ons = [] := by simp [Pool.ons, Pool.new, Place.on]
  refine ⟨by simp [htokens], by simp [hons], by simp [htokens], fun l hl => ?_, by simp [htokens], rfl⟩
  simp [Pool.Fits, hplace l hl]

/-- The steps that move the owner of a fiber and change no state. -/
theorem Owned.of_perm (h : Owned s) (htokens : t.tokens.Perm s.tokens) (hons : t.ons.Perm s.ons)
    (hstates : t.states = s.states) (hcount : t.count = s.count) (hfits : ∀ l ∈ t.loops, t.Fits l)
    (hasserted : t.aborted = s.aborted) : Owned t := by
  refine ⟨htokens.nodup_iff.2 h.tokens_nodup, hons.nodup_iff.2 h.ons_nodup, fun f hf => ?_,
    hfits, fun f hf hon => ?_,
    hasserted.trans h.asserted⟩
  · rw [hcount]
    exact h.known f (htokens.mem_iff.1 hf)
  · rw [hstates]
    exact h.ready f (htokens.mem_iff.1 hf) fun hmem => hon (hons.mem_iff.2 hmem)

/-- The fiber on a loop executes. -/
theorem mem_ons {l : Loop} (hl : l ∈ s.loops) (hon : l.place.on = some f) : f ∈ s.ons :=
  List.mem_filterMap.2 ⟨l, hl, hon⟩

/-- The fiber a loop owns is owned. -/
theorem mem_tokens {l : Loop} (hl : l ∈ s.loops) (htoken : l.place.token = some f) : f ∈ s.tokens :=
  List.mem_append_right _ (List.mem_filterMap.2 ⟨l, hl, htoken⟩)

/-- A state fits a loop on another fiber as before. -/
theorem Pool.Fits.setState {l : Loop} (h : s.Fits l) (hon : l.place.on ≠ some f) (state : State) :
    (s.setState f state).Fits l := by
  have hother : ∀ g, l.place.on = some g → (s.setState f state).states g = s.states g := by
    intro g hg
    exact Function.update_of_ne (fun heq : g = f => hon (heq ▸ hg)) _ _
  unfold Pool.Fits at h ⊢
  cases hp : l.place with
  | ready | took body => trivial
  | running g | published g | leaving g =>
    simp only [hp] at h ⊢
    rw [hother g (by rw [hp]; rfl)]
    exact h

/-- The other loops are on other fibers. -/
theorem Owned.on_ne (h : Owned s) {l l' : Loop} {j : Nat} (hi : s.loops[i]? = some l)
    (hj : s.loops[j]? = some l')
    (hne : j ≠ i) (hon : l.place.on = some f) : l'.place.on ≠ some f := fun hon' =>
  hne (eq_of_filterMap_nodup (g := fun l : Loop => l.place.on) h.ons_nodup hj hi hon' hon)

/-- The owned fibers after a loop has moved. -/
theorem tokens_go {l : Loop} (hi : s.loops[i]? = some l) (queue : List Task) (held : List Body)
    (h : queue.filterMap (·.body.fiber?) ++ held.filterMap Body.fiber? ++ place.token.toList |>.Perm
      (s.queue.filterMap (·.body.fiber?) ++ s.held.filterMap Body.fiber? ++ l.place.token.toList)) :
    ({ s with queue, held }.go i tid place).tokens.Perm s.tokens := by
  obtain ⟨rest, hold, hnew⟩ := filterMap_set (fun l : Loop => l.place.token) hi
  have hnew := hnew ⟨tid, place⟩
  show (_ ++ _ ++ (s.loops.set i ⟨tid, place⟩).filterMap _).Perm (_ ++ _ ++ s.loops.filterMap _)
  refine (hnew.append_left _).trans (.trans ?_ (hold.append_left _).symm)
  rw [← List.append_assoc, ← List.append_assoc]
  exact h.append_right _

/-- **A loop moves**, on the same fiber or on none, with what it owned given to the queue, or to an
event or a timer, or taken from them. -/
theorem Owned.go (h : Owned s) (hi : s.loops[i]? = some ⟨tid, place⟩) (queue : List Task)
    (held : List Body)
    (hperm : queue.filterMap (·.body.fiber?) ++ held.filterMap Body.fiber? ++ place'.token.toList |>.Perm
      (s.queue.filterMap (·.body.fiber?) ++ s.held.filterMap Body.fiber? ++ place.token.toList))
    (hon : place'.on = place.on) (hfit : s.Fits ⟨tid, place'⟩) :
      Owned ({ s with queue, held }.go i tid place') := by
  refine h.of_perm (tokens_go hi queue held hperm) ?_ rfl rfl (fun l hl => ?_) rfl
  · exact .of_eq (filterMap_set_eq (fun l : Loop => l.place.on) hi hon)
  · rcases mem_set_cases hl with rfl | ⟨j, -, hj⟩
    · exact hfit
    · exact h.fits l (List.mem_of_getElem? hj)

/-- Something that refers to no fiber is scheduled. -/
theorem Owned.spawn (h : Owned s) (thread : Int) : Owned (s.scheduler .fn thread) := by
  refine h.of_perm (.of_eq ?_) (.refl _) rfl rfl h.fits rfl
  simp [Pool.tokens, Pool.scheduler, List.filterMap_append, Body.fiber?]

/-- Something that refers to no fiber is held. -/
theorem Owned.hold (h : Owned s) : Owned (s.hold .fn) := by
  refine h.of_perm (.of_eq ?_) (.refl _) rfl rfl h.fits rfl
  simp [Pool.tokens, Pool.hold, List.filterMap_append, Body.fiber?]

/-- What was held is scheduled. -/
theorem Owned.release {k : Nat} {body : Body} (h : Owned s) (hk : s.held[k]? = some body) :
    Owned (s.release k body) := by
  obtain ⟨hlt, rfl⟩ := List.getElem?_eq_some_iff.1 hk
  refine h.of_perm ?_ (.refl _) rfl rfl h.fits rfl
  have hheld : (s.held.filterMap Body.fiber?).Perm
      ((s.held[k].fiber?).toList ++ (s.held.eraseIdx k).filterMap Body.fiber?) := by
    refine ((List.getElem_cons_eraseIdx_perm hlt).filterMap _).symm.trans (.of_eq ?_)
    rw [List.filterMap_cons]
    cases s.held[k].fiber? <;> rfl
  have hone : [Task.mk s.held[k] (-1)].filterMap (·.body.fiber?) = (s.held[k].fiber?).toList := by
    rw [List.filterMap_cons]
    cases s.held[k].fiber? <;> rfl
  show (((s.queue ++ [_]).filterMap _) ++ (s.held.eraseIdx k).filterMap _ ++ _).Perm _
  rw [List.filterMap_append, hone]
  refine List.Perm.append_right _ ?_
  rw [List.append_assoc]
  exact hheld.symm.append_left _

/-- A loop looks for a task. -/
theorem Owned.pick (h : Owned s) (hi : s.loops[i]? = some ⟨tid, .ready⟩) : Owned (s.pick i tid) := by
  unfold Pool.pick
  split
  · rename_i task hfind
    refine h.go hi _ s.held ?_ rfl trivial
    obtain ⟨htask, pre, post, hqueue, hpre⟩ := List.find?_eq_some_iff_append.1 hfind
    have herase : s.queue.eraseP (Task.eligible tid) = pre ++ post := by
      rw [hqueue, List.eraseP_append_right _ fun x hx => by simpa using hpre x hx, List.eraseP_cons_of_pos htask]
    rw [herase, hqueue]
    refine List.perm_iff_count.2 fun f => ?_
    have hone : (task :: post).filterMap (·.body.fiber?) =
        task.body.fiber?.toList ++ post.filterMap (·.body.fiber?) := by
      rw [List.filterMap_cons]
      cases task.body.fiber? <;> rfl
    simp only [List.filterMap_append, hone, List.count_append, Place.token, Option.toList_none,
      List.count_nil]
    omega
  · exact h

/-- **A fiber makes itself known**: its task or registration owns it now. -/
theorem Owned.publish (h : Owned s) (hi : s.loops[i]? = some ⟨tid, .running f⟩) (queue : List Task)
    (held : List Body)
    (hperm : (queue.filterMap (·.body.fiber?) ++ held.filterMap Body.fiber?).Perm
      (s.queue.filterMap (·.body.fiber?) ++ s.held.filterMap Body.fiber? ++ [f])) :
    Owned ({ s with queue, held }.go i tid (.published f)) := by
  refine h.go hi queue held ?_ rfl ?_
  · simpa [Place.token] using hperm
  · have hfit := h.fits _ (List.mem_of_getElem? hi)
    exact hfit

/-- The fiber on a loop has another state. -/
theorem Owned.setState (h : Owned s) (hi : s.loops[i]? = some ⟨tid, place⟩)
    (hon : place.on = some f) (state : State)
    (hfit : (s.setState f state).Fits ⟨tid, place'⟩) :
      ∀ l ∈ ((s.setState f state).go i tid place').loops,
      ((s.setState f state).go i tid place').Fits l := by
  intro l hl
  rcases mem_set_cases hl with rfl | ⟨j, hne, hj⟩
  · exact hfit
  · exact (h.fits l (List.mem_of_getElem? hj)).setState (h.on_ne hi hj hne hon) state

/-- The state of a fiber that yields is set. -/
theorem Owned.setReady (h : Owned s) (hi : s.loops[i]? = some ⟨tid, .published f⟩) :
    Owned ((s.setState f .READY).go i tid (.leaving f)) := by
  have htokens : ((s.setState f .READY).go i tid (.leaving f)).tokens.Perm s.tokens :=
    tokens_go hi s.queue s.held (.refl _)
  have hons : ((s.setState f .READY).go i tid (.leaving f)).ons = s.ons :=
    filterMap_set_eq (fun l : Loop => l.place.on) hi rfl
  have hfit := h.fits _ (List.mem_of_getElem? hi)
  refine ⟨htokens.nodup_iff.2 h.tokens_nodup, hons ▸ h.ons_nodup,
    fun g hg => h.known g (htokens.mem_iff.1 hg),
    h.setState hi rfl .READY ⟨Function.update_self .., hfit.2⟩, fun g hg hon => ?_, h.asserted⟩
  rw [hons] at hon
  have hne : g ≠ f := fun heq => hon (heq ▸ mem_ons (List.mem_of_getElem? hi) rfl)
  exact (Function.update_of_ne hne ..).trans (h.ready g (htokens.mem_iff.1 hg) hon)

/-- The fibers that execute after a loop has left one. -/
theorem mem_ons_of_left (hi : s.loops[i]? = some ⟨tid, place⟩) (hon : place.on = some f) {g : Nat}
    (hne : g ≠ f)
    (hg : g ∈ s.ons) : g ∈ (s.go i tid .ready).ons := by
  obtain ⟨rest, hold, hnew⟩ := filterMap_set (fun l : Loop => l.place.on) hi
  have hg := hold.mem_iff.1 hg
  simp only [hon, Option.toList_some, List.cons_append, List.nil_append, List.mem_cons, hne,
    false_or] at hg
  exact (hnew ⟨tid, .ready⟩).mem_iff.2 hg

/-- A loop that lets its fiber go keeps the others apart. -/
theorem ons_nodup_left (h : s.ons.Nodup) (hi : s.loops[i]? = some ⟨tid, place⟩) :
    (s.go i tid .ready).ons.Nodup := by
  obtain ⟨rest, hold, hnew⟩ := filterMap_set (fun l : Loop => l.place.on) hi
  exact (hnew ⟨tid, .ready⟩).nodup_iff.2 (List.nodup_append.1 (hold.nodup_iff.1 h)).2.1

/-- **The end of a yield.** -/
theorem Owned.swapcontext (h : Owned s) (hi : s.loops[i]? = some ⟨tid, .leaving f⟩) :
    Owned (s.go i tid .ready) := by
  have htokens : (s.go i tid .ready).tokens.Perm s.tokens := tokens_go hi s.queue s.held (.refl _)
  refine ⟨htokens.nodup_iff.2 h.tokens_nodup, ons_nodup_left h.ons_nodup hi,
    fun g hg => h.known g (htokens.mem_iff.1 hg),
    fun l hl => ?_, fun g hg hon => ?_, h.asserted⟩
  · rcases mem_set_cases hl with rfl | ⟨j, -, hj⟩
    · trivial
    · exact h.fits l (List.mem_of_getElem? hj)
  · by_cases heq : g = f
    · rw [heq]
      exact (h.fits _ (List.mem_of_getElem? hi)).1
    · exact h.ready g (htokens.mem_iff.1 hg) fun hmem => hon (mem_ons_of_left hi rfl heq hmem)

/-- The owned fibers after a loop has ended its own. -/
theorem tokens_of_left (hi : s.loops[i]? = some ⟨tid, .running f⟩) :
    s.tokens.Perm (f :: (s.go i tid .ready).tokens) := by
  obtain ⟨rest, hold, hnew⟩ := filterMap_set (fun l : Loop => l.place.token) hi
  refine (hold.append_left _).trans (.trans ?_ ((hnew ⟨tid, .ready⟩).append_left _ |>.cons f).symm)
  exact List.perm_middle

/-- **A fiber ends.** -/
theorem Owned.finish (h : Owned s) (hi : s.loops[i]? = some ⟨tid, .running f⟩) :
    Owned ((s.setState f .TERM).go i tid .ready) := by
  have htokens := tokens_of_left hi
  have hnodup := htokens.nodup_iff.1 h.tokens_nodup
  refine ⟨(List.nodup_cons.1 hnodup).2, ons_nodup_left (s := s.setState f .TERM) h.ons_nodup hi, fun g hg => ?_,
    h.setState hi rfl .TERM trivial,
    fun g hg hon => ?_, h.asserted⟩
  · exact h.known g (htokens.mem_iff.2 (List.mem_cons_of_mem f hg))
  · have hne : g ≠ f := fun heq => (List.nodup_cons.1 hnodup).1 (heq ▸ hg)
    refine (Function.update_of_ne hne ..).trans
      (h.ready g (htokens.mem_iff.2 (List.mem_cons_of_mem f hg)) fun hmem => ?_)
    exact hon (mem_ons_of_left hi rfl hne hmem)

/-- A fiber that executes is known. -/
theorem Owned.lt_of_mem_ons (h : Owned s) (hf : f ∈ s.ons) : f < s.count := by
  obtain ⟨l, hl, hon⟩ := List.mem_filterMap.1 hf
  have hfit := h.fits l hl
  unfold Pool.Fits at hfit
  cases hp : l.place with
  | ready | took body =>
    rw [hp] at hon
    cases hon
  | running g | published g | leaving g =>
    rw [hp] at hon hfit
    obtain rfl := Option.some.inj hon
    exact hfit.2

/-- A state fits a loop when a fiber more is known. -/
theorem Pool.Fits.newFiber {l : Loop} (h : s.Fits l) : s.newFiber.Fits l := by
  have hold : ∀ g, g < s.count → s.newFiber.states g = s.states g ∧ g < s.newFiber.count := by
    intro g hg
    exact ⟨Function.update_of_ne (Nat.ne_of_lt hg) _ _, Nat.lt_succ_of_lt hg⟩
  unfold Pool.Fits at h ⊢
  cases hp : l.place with
  | ready | took body => trivial
  | running g | published g | leaving g =>
    simp only [hp] at h ⊢
    rw [(hold g h.2).1]
    exact ⟨h.1, (hold g h.2).2⟩

/-- **A new fiber**, which nothing owns yet. -/
theorem Owned.newFiber (h : Owned s) : Owned s.newFiber := by
  refine ⟨h.tokens_nodup, h.ons_nodup, fun f hf => Nat.lt_succ_of_lt (h.known f hf),
    fun l hl => (h.fits l hl).newFiber, fun f hf hon => ?_, h.asserted⟩
  exact (Function.update_of_ne (Nat.ne_of_lt (h.known f hf)) _ _).trans (h.ready f hf hon)

/-- **A fiber that nothing owned gets an owner.** -/
theorem Owned.of_cons (h : Owned s) (htokens : t.tokens.Perm (f :: s.tokens))
    (hfree : f ∉ s.tokens) (hknown : f < s.count)
    (hstate : s.states f = .READY) (hons : t.ons = s.ons) (hstates : t.states = s.states)
    (hcount : t.count = s.count)
    (hfits : ∀ l ∈ t.loops, t.Fits l) (hasserted : t.aborted = s.aborted) : Owned t := by
  refine ⟨htokens.nodup_iff.2 (List.nodup_cons.2 ⟨hfree, h.tokens_nodup⟩),
    hons ▸ h.ons_nodup, fun g hg => ?_, hfits,
    fun g hg hon => ?_, hasserted.trans h.asserted⟩
  · rw [hcount]
    rcases List.mem_cons.1 (htokens.mem_iff.1 hg) with rfl | hg
    · exact hknown
    · exact h.known g hg
  · rw [hstates]
    rcases List.mem_cons.1 (htokens.mem_iff.1 hg) with rfl | hg
    · exact hstate
    · exact h.ready g hg (hons ▸ hon)

/-- The number of the new fiber is not owned. -/
theorem Owned.count_not_mem (h : Owned s) : s.count ∉ s.newFiber.tokens := fun hmem =>
  Nat.lt_irrefl _ (h.known _ hmem)

/-- A new fiber is scheduled. -/
theorem Owned.create (h : Owned s) (thread : Int) :
    Owned (s.newFiber.scheduler (.fiber s.count) thread) := by
  refine h.newFiber.of_cons (f := s.count) ?_ h.count_not_mem (Nat.lt_succ_self _)
    (Function.update_self ..) rfl rfl rfl
    h.newFiber.fits rfl
  refine List.perm_iff_count.2 fun g => ?_
  simp only [Pool.tokens, Pool.scheduler, List.filterMap_append, List.count_append, List.count_cons]
  simp [Body.fiber?, List.count_cons]
  omega

/-- **A fiber that does not execute is resumed** by a loop that owns it. -/
theorem Owned.resumed (h : Owned s) (hi : s.loops[i]? = some ⟨tid, .took (.fiber f)⟩)
    (hon : f ∉ s.ons) :
    Owned ((s.setState f .RUNNING).go i tid (.running f)) := by
  have htokens : ((s.setState f .RUNNING).go i tid (.running f)).tokens.Perm s.tokens :=
    tokens_go hi s.queue s.held (.refl _)
  have hons : ((s.setState f .RUNNING).go i tid (.running f)).ons.Perm (f :: s.ons) := by
    obtain ⟨rest, hold, hnew⟩ := filterMap_set (fun l : Loop => l.place.on) hi
    exact (hnew ⟨tid, .running f⟩).trans (hold.cons f).symm
  have hknown : f < s.count := h.known f (mem_tokens (List.mem_of_getElem? hi) rfl)
  refine ⟨htokens.nodup_iff.2 h.tokens_nodup, hons.nodup_iff.2 (List.nodup_cons.2 ⟨hon, h.ons_nodup⟩),
    fun g hg => h.known g (htokens.mem_iff.1 hg), fun l hl => ?_, fun g hg hong => ?_, h.asserted⟩
  · rcases mem_set_cases hl with rfl | ⟨j, -, hj⟩
    · exact ⟨Function.update_self .., hknown⟩
    · have hl := List.mem_of_getElem? hj
      exact (h.fits l hl).setState (fun hlon => hon (mem_ons hl hlon)) .RUNNING
  · have hong : g ∉ f :: s.ons := fun hmem => hong (hons.mem_iff.2 hmem)
    simp only [List.mem_cons, not_or] at hong
    exact (Function.update_of_ne hong.1 ..).trans (h.ready g (htokens.mem_iff.1 hg) hong.2)

/-- A loop owns what it took, so nothing executes it but a loop in the window. -/
theorem Owned.not_mem_ons (h : Owned s) (hi : s.loops[i]? = some ⟨tid, .took (.fiber f)⟩)
    (hapart : ∀ l ∈ s.loops, l.place.window ≠ some f) : f ∉ s.ons := by
  intro hf
  obtain ⟨l, hl, hon⟩ := List.mem_filterMap.1 hf
  obtain ⟨j, hj⟩ := List.mem_iff_getElem?.1 hl
  have hnodup : (s.loops.filterMap fun l : Loop => l.place.token).Nodup :=
    (List.nodup_append.1 h.tokens_nodup).2.1
  cases hp : l.place with
  | ready | took body =>
    rw [hp] at hon
    cases hon
  | running g =>
    rw [hp] at hon
    obtain rfl := Option.some.inj hon
    have heq : j = i := eq_of_filterMap_nodup hnodup hj hi (by rw [hp]; rfl) rfl
    rw [heq, hi] at hj
    obtain rfl := Option.some.inj hj
    cases hp
  | published g | leaving g =>
    rw [hp] at hon
    exact hapart l hl (by rw [hp]; exact hon)

/-- **What a loop does with its task.** -/
theorem Owned.resume {body : Body} (h : Owned s) (hi : s.loops[i]? = some ⟨tid, .took body⟩)
    (hapart : ∀ f, body = .fiber f → ∀ l ∈ s.loops, l.place.window ≠ some f) :
      Owned (s.resume i tid body) := by
  cases body with
  | fiber f =>
    have hon := h.not_mem_ons hi (hapart f rfl)
    have hready := h.ready f (mem_tokens (List.mem_of_getElem? hi) rfl) hon
    rw [Pool.resume, if_pos hready]
    exact h.resumed hi hon
  | wake f =>
    refine h.go hi _ s.held (List.perm_iff_count.2 fun g => ?_) rfl trivial
    simp only [List.filterMap_append, List.count_append]
    simp [Body.fiber?, Place.token]
    omega
  | fn =>
    -- as if the loop had taken the new fiber
    let u := s.newFiber.go i tid (.took (.fiber s.count))
    have hu : Owned u := by
      refine h.newFiber.of_cons (f := s.count) ?_ h.count_not_mem (Nat.lt_succ_self _)
        (Function.update_self ..)
        (filterMap_set_eq (fun l : Loop => l.place.on) hi rfl) rfl rfl (fun l hl => ?_) rfl
      · obtain ⟨rest, hold, hnew⟩ := filterMap_set (fun l : Loop => l.place.token) hi
        refine ((hnew ⟨tid, .took (.fiber s.count)⟩).append_left _).trans ?_
        exact List.perm_middle.trans ((hold.append_left _).symm.cons _)
      · rcases mem_set_cases hl with rfl | ⟨j, -, hj⟩
        · trivial
        · exact h.newFiber.fits l (List.mem_of_getElem? hj)
    have hui : u.loops[i]? = some ⟨tid, .took (.fiber s.count)⟩ :=
      List.getElem?_set_self (List.getElem?_eq_some_iff.1 hi).1
    have huons : u.ons = s.ons := filterMap_set_eq (fun l : Loop => l.place.on) hi rfl
    have hresumed := hu.resumed hui (huons ▸ fun hmem => Nat.lt_irrefl _ (h.lt_of_mem_ons hmem))
    have heq : (u.setState s.count .RUNNING).go i tid (.running s.count) = s.resume i tid .fn := by
      simp only [Pool.resume, Pool.go, Pool.setState, Pool.newFiber, List.set_set, u]
    rwa [heq] at hresumed

/-- **What a step keeps** when no fiber is resumed in its window. -/
theorem Owned.next (h : Owned s) (hapart : move.Apart s) (hn : s.next move = some t) : Owned t := by
  unfold Pool.next at hn
  rw [h.asserted] at hn
  cases move with
  | spawn thread =>
    obtain rfl := Option.some.inj hn
    exact h.spawn thread
  | create thread =>
    obtain rfl := Option.some.inj hn
    exact h.create thread
  | hold =>
    obtain rfl := Option.some.inj hn
    exact h.hold
  | release k =>
    obtain ⟨body, hk, rfl⟩ := Option.map_eq_some_iff.1 hn
    exact h.release hk
  | pick i =>
    simp only [Bool.false_eq_true, if_false] at hn
    split at hn
    · rename_i tid hi
      obtain rfl := Option.some.inj hn
      exact h.pick hi
    · cases hn
  | resume i =>
    simp only [Bool.false_eq_true, if_false] at hn
    split at hn
    · rename_i tid body hi
      obtain rfl := Option.some.inj hn
      exact h.resume hi fun f hf l hl hwindow => hapart _ hi l hl f hwindow (congrArg Place.took hf)
    · cases hn
  | scheduler i thread =>
    simp only [Bool.false_eq_true, if_false] at hn
    split at hn
    · rename_i tid f hi
      obtain rfl := Option.some.inj hn
      refine h.publish hi _ s.held (List.perm_iff_count.2 fun g => ?_)
      simp only [List.filterMap_append, List.count_append]
      simp [Body.fiber?]
      omega
    · cases hn
  | addEvent i =>
    simp only [Bool.false_eq_true, if_false] at hn
    split at hn
    · rename_i tid f hi
      obtain rfl := Option.some.inj hn
      exact h.publish hi s.queue _ (.of_eq (by simp [List.filterMap_append, Body.fiber?]))
    · cases hn
  | sleep i =>
    simp only [Bool.false_eq_true, if_false] at hn
    split at hn
    · rename_i tid f hi
      obtain rfl := Option.some.inj hn
      exact h.publish hi s.queue _ (.of_eq (by simp [List.filterMap_append, Body.fiber?]))
    · cases hn
  | setReady i =>
    simp only [Bool.false_eq_true, if_false] at hn
    split at hn
    · rename_i tid f hi
      obtain rfl := Option.some.inj hn
      exact h.setReady hi
    · cases hn
  | swapcontext i =>
    simp only [Bool.false_eq_true, if_false] at hn
    split at hn
    · rename_i tid f hi
      obtain rfl := Option.some.inj hn
      exact h.swapcontext hi
    · cases hn
  | finish i =>
    simp only [Bool.false_eq_true, if_false] at hn
    split at hn
    · rename_i tid f hi
      obtain rfl := Option.some.inj hn
      exact h.finish hi
    · cases hn

/-- One owner each is enough. -/
theorem Owned.safe (h : Owned s) : s.Safe :=
  ⟨h.asserted, fun _ _ _ _ _ hi hj hon hon' =>
    eq_of_filterMap_nodup (g := fun l : Loop => l.place.on) h.ons_nodup hi hj hon hon'⟩

/-- **A fiber that is resumed in its window** fails the assertion, or executes on two threads. -/
theorem Owned.not_safe (h : Owned s) (hapart : ¬ move.Apart s) (hn : s.next move = some t) :
    ¬ t.Safe := by
  cases move with
  | resume i =>
    simp only [Move.Apart, not_forall, not_not] at hapart
    obtain ⟨l, hi, l', hl', f, hwindow, hl⟩ := hapart
    obtain ⟨tid, place⟩ := l
    obtain rfl : place = .took (.fiber f) := hl
    obtain ⟨j, hj⟩ := List.mem_iff_getElem?.1 hl'
    have hfit := h.fits l' hl'
    unfold Pool.Fits at hfit
    simp only [Pool.next, h.asserted, Bool.false_eq_true, if_false, Option.mem_def.1 hi,
      Pool.resume] at hn
    intro hsafe
    cases hp : l'.place with
    | published g =>
      -- it still has the state `RUNNING`
      rw [hp] at hfit hwindow
      obtain rfl : g = f := Option.some.inj hwindow
      rw [if_neg (by rw [hfit.1]; nofun)] at hn
      obtain rfl := Option.some.inj hn
      cases hsafe.asserted
    | leaving g =>
      -- it has set its state, and its stack is in use
      rw [hp] at hfit hwindow
      obtain rfl : g = f := Option.some.inj hwindow
      rw [if_pos hfit.1] at hn
      obtain rfl := Option.some.inj hn
      have hne : i ≠ j := by
        rintro rfl
        rw [Option.mem_def.1 hi] at hj
        obtain rfl := Option.some.inj hj
        cases hp
      refine hne (hsafe.oneThread i j ⟨tid, .running g⟩ l' g ?_ ?_ rfl (by rw [hp]; rfl))
      · exact List.getElem?_set_self (List.getElem?_eq_some_iff.1 hi).1
      · exact (List.getElem?_set_ne hne).trans hj
    | ready | took body | running g =>
      rw [hp] at hwindow
      cases hwindow
  | _ => exact absurd trivial hapart

end

/-- **When the loops are safe.**  In a run of any number of loops and fibers no assertion of
`resume` fails and no fiber executes on two threads if and only if no loop resumes a fiber that has
made itself known and has not yet left its stack. -/
theorem safe_iff {tids : List Int} {moves : List Move} {s : Pool}
    (h : (system tids).Run anyStep moves s) :
    (∀ moves' s', moves' <+: moves → (system tids).Run anyStep moves' s' → s'.Safe) ↔
      (system tids).Run (fun s move => move.Apart s) moves s := by
  have howned : ∀ moves s, (system tids).Run (fun s move => move.Apart s) moves s → Owned s :=
    fun _ _ hrun => hrun.invariant (I := fun _ s => Owned s) (Owned.new tids)
      fun _ _ _ _ h hapart hn => h.next hapart hn
  exact h.always_iff (fun moves s hrun => (howned moves s hrun).safe)
    fun moves s move t hrun hapart hn => (howned moves s hrun).not_safe hapart hn

/-- Whether a move keeps a fiber apart can be computed. -/
instance (s : Pool) : (move : Move) → Decidable (move.Apart s)
  | .resume i =>
    inferInstanceAs (Decidable (∀ l ∈ s.loops[i]?, ∀ l' ∈ s.loops, ∀ f ∈ l'.place.window,
      l.place ≠ .took (.fiber f)))
  | .spawn _ => isTrue trivial
  | .create _ => isTrue trivial
  | .hold => isTrue trivial
  | .release _ => isTrue trivial
  | .pick _ => isTrue trivial
  | .scheduler .. => isTrue trivial
  | .addEvent _ => isTrue trivial
  | .sleep _ => isTrue trivial
  | .setReady _ => isTrue trivial
  | .swapcontext _ => isTrue trivial
  | .finish _ => isTrue trivial

/-- A fiber schedules itself and yields, and the other thread takes it after that. -/
def yieldsFirst : List Move :=
  [.create (-1), .pick 0, .resume 0, .scheduler 0 (-1), .pick 1, .setReady 0, .swapcontext 0,
    .resume 1, .finish 1]

/-- The fiber goes on on the other thread. -/
theorem safe_iff_yieldsFirst : ∃ s, (system [1, 2]).Run anyStep yieldsFirst s ∧
    ∀ moves' s', moves' <+: yieldsFirst → (system [1, 2]).Run anyStep moves' s' → s'.Safe := by
  have hsome : ((system [1, 2]).exec (fun s move => decide (move.Apart s))
      (system [1, 2]).init yieldsFirst).isSome =
      true := by
    decide
  obtain ⟨s, hs⟩ := Option.isSome_iff_exists.1 hsome
  have hrun : (system [1, 2]).Run (fun s move => move.Apart s) yieldsFirst s :=
    System.run_of_exec (fun _ _ => of_decide_eq_true) hs
  have hany : (system [1, 2]).Run anyStep yieldsFirst s := hrun.mono fun _ _ _ => trivial
  exact ⟨s, hany, (safe_iff hany).2 hrun⟩

/-- `test_fiber1` on two threads: the fiber schedules itself, and the other thread resumes it before
it has yielded. -/
def resumedFirst : List Move :=
  [.create (-1), .pick 0, .resume 0, .scheduler 0 (-1), .pick 1, .resume 1]

/-- The same with a fiber that waits for an event, and that has set its state but has not left its
stack. -/
def resumedOnStack : List Move :=
  [.create (-1), .pick 0, .resume 0, .addEvent 0, .setReady 0, .release 0, .pick 1, .resume 1]

/-- **A fiber is resumed while it executes.**  The assertion of `resume` fails; or, once the state
is set, the fiber executes on both threads. -/
theorem resumes_running_fiber :
    (∃ s, (system [1, 2]).Run anyStep resumedFirst s ∧ s.aborted = true ∧ ¬ s.Safe) ∧
    ∃ s, (system [1, 2]).Run anyStep resumedOnStack s ∧ s.aborted = false ∧
      s.loops = [⟨1, .leaving 0⟩, ⟨2, .running 0⟩] ∧ ¬ s.Safe := by
  constructor
  · have hsome : ((system [1, 2]).exec (fun _ _ => true)
        (system [1, 2]).init resumedFirst).isSome = true := by
      decide
    obtain ⟨s, hs⟩ := Option.isSome_iff_exists.1 hsome
    have hend : ((system [1, 2]).exec (fun _ _ => true) (system [1, 2]).init resumedFirst).all
        (·.aborted) = true := by
      decide
    rw [hs, Option.all_some] at hend
    refine ⟨s, System.run_of_exec (fun _ _ _ => trivial) hs, hend, fun hsafe => ?_⟩
    cases hend.symm.trans hsafe.asserted
  · have hsome : ((system [1, 2]).exec (fun _ _ => true)
        (system [1, 2]).init resumedOnStack).isSome = true := by
      decide
    obtain ⟨s, hs⟩ := Option.isSome_iff_exists.1 hsome
    have hend : ((system [1, 2]).exec (fun _ _ => true) (system [1, 2]).init resumedOnStack).all
        (fun s => decide (
        s.aborted = false ∧ s.loops = [⟨1, .leaving 0⟩, ⟨2, .running 0⟩])) = true := by
      decide
    rw [hs, Option.all_some] at hend
    obtain ⟨haborted, hloops⟩ := of_decide_eq_true hend
    refine ⟨s, System.run_of_exec (fun _ _ _ => trivial) hs, haborted, hloops, fun hsafe => ?_⟩
    have h := hsafe.oneThread 0 1 ⟨1, .leaving 0⟩ ⟨2, .running 0⟩ 0 (by rw [hloops]; rfl)
      (by rw [hloops]; rfl) rfl rfl
    cases h

end Fibers
end Wuchat
