/-
# Timers

`timer.cpp`: a `TimerManager` keeps its pending timers in a `std::set` in the order of their next
time and, among equal times, of their addresses.  `cancel`, `refresh` and `reset` look a
timer up in the set, and `listExpiredCb` takes the ones that are due out of it and hands their
callbacks out.

A timer object has a number, in the order of creation, and an address; the address is not that
of another timer that is still alive, in the set or in the hands of a caller.  What the
clock reads is a parameter of each call.  Erasing the end iterator is undefined and has no
result.

Two fields are there for the proofs: `held` says whether a caller still has the timer, and
`rekeyed` lists every write to an `m_next` with whether the timer was in the set.
-/

import Mathlib.Data.Prod.Lex
import Mathlib.Order.Basic
import Mathlib.Logic.Function.Basic
import Wuchat.Foundation.OrdSet
import Wuchat.Foundation.System

namespace Wuchat
namespace Timers

open Foundation

/-- A `std::function` that can be called: one a caller gave, or the closure of `addConditionTimer`. -/
inductive Callback (γ : Type)
  | fn (f : γ)
  | onTimer (cond : Nat) (cb : Option γ)
  deriving DecidableEq, Repr

/-- `Timer`. -/
structure Timer (γ : Type) where
  addr : Nat
  recurring : Bool
  ms : UInt64
  next : UInt64
  cb : Option (Callback γ)
  held : Bool
  deriving DecidableEq, Repr

/-- `TimerManager`, with all timers that were ever created. -/
structure Manager (γ : Type) where
  count : Nat
  timers : Nat → Timer γ
  set : List Nat
  tickled : Bool
  rekeyed : List (Nat × Bool)

variable {γ : Type}

/-- `Timer::Comparator`, on timers that are not null. -/
def comparator (lhs rhs : Timer γ) : Bool :=
  if lhs.next < rhs.next then true
  else if rhs.next < lhs.next then false
  else decide (lhs.addr < rhs.addr)

/-- The key the comparator compares. -/
def Timer.key (t : Timer γ) : ℕ ×ₗ ℕ := toLex (t.next.toNat, t.addr)

/-- The comparator orders by the time, then by the address. -/
theorem comparator_iff {lhs rhs : Timer γ} : comparator lhs rhs = true ↔ lhs.key < rhs.key := by
  rw [comparator, Timer.key, Timer.key, Prod.Lex.toLex_lt_toLex]
  simp only [UInt64.lt_iff_toNat_lt]
  split
  · rename_i hlt
    simp [hlt]
  · split
    · rename_i h₁ h₂
      simp only [Bool.false_eq_true, false_iff]
      omega
    · rename_i h₁ h₂
      rw [decide_eq_true_iff]
      omega

namespace Manager

/-- `TimerManager()`. -/
def new : Manager γ := ⟨0, fun _ => ⟨0, false, 0, 0, none, false⟩, [], false, []⟩

/-- The key of a timer. -/
def key (m : Manager γ) (i : Nat) : ℕ ×ₗ ℕ := (m.timers i).key

/-- The timer object exists: it is in the set, or a caller has it. -/
def Alive (m : Manager γ) (i : Nat) : Prop := i < m.count ∧ ((m.timers i).held = true ∨ i ∈ m.set)

/-- Whether a timer is alive can be computed. -/
instance (m : Manager γ) (i : Nat) : Decidable (m.Alive i) := inferInstanceAs (Decidable (_ ∧ _))

/-- The address is that of no timer that exists. -/
def Free (m : Manager γ) (addr : Nat) : Prop := ∀ i < m.count, m.Alive i → (m.timers i).addr ≠ addr

/-- Whether an address is free can be computed. -/
instance (m : Manager γ) (addr : Nat) : Decidable (m.Free addr) := Nat.decidableBallLT _ _

/-- A write to a timer. -/
def modify (i : Nat) (f : Timer γ → Timer γ) (m : Manager γ) : Manager γ :=
  { m with timers := Function.update m.timers i (f (m.timers i)) }

/-- A write to the `m_next` of a timer. -/
def setNext (i : Nat) (next : UInt64) (m : Manager γ) : Manager γ :=
  { m.modify i fun t => { t with next } with rekeyed := m.rekeyed ++ [(i, decide (i ∈ m.set))] }

/-- `m_timers.find(timer)`. -/
def find (i : Nat) (m : Manager γ) : Option Nat := OrdSet.find m.key (m.key i) m.set

/-- `m_timers.erase(it)`; `none` for the end iterator. -/
def eraseAt : Option Nat → Manager γ → Option (Manager γ)
  | none, _ => none
  | some i, m => some { m with set := m.set.erase i }

/-- `m_timers.erase(timer)`. -/
def erase (i : Nat) (m : Manager γ) : Manager γ := { m with set := OrdSet.erase m.key (m.key i) m.set }

/-- `m_timers.insert(timer)`. -/
def insert (i : Nat) (m : Manager γ) : Manager γ := { m with set := OrdSet.insert m.key i m.set }

/-- `addTimer(val, lock)`. -/
def addTimerLocked (i : Nat) (m : Manager γ) : Manager γ :=
  let m := m.insert i
  let atFront := decide (m.find i = m.set.head?) && !m.tickled
  { m with tickled := m.tickled || atFront }

/-- `addTimer(ms, cb, recurring)`, with the address of the new timer and what the clock reads. -/
def addTimer (addr : Nat) (ms : UInt64) (cb : Option (Callback γ)) (recurring : Bool) (now : UInt64)
    (m : Manager γ) : Option (Manager γ) :=
  if m.Free addr then
    let i := m.count
    let m := { m with
      count := i + 1
      timers := Function.update m.timers i ⟨addr, recurring, ms, now + ms, cb, true⟩ }
    some (m.addTimerLocked i)
  else none

/-- `addConditionTimer(ms, cb, weak_cond, recurring)`. -/
def addConditionTimer (addr : Nat) (ms : UInt64) (cb : Option γ) (cond : Nat) (recurring : Bool) (now : UInt64)
    (m : Manager γ) : Option (Manager γ) :=
  m.addTimer addr ms (some (.onTimer cond cb)) recurring now

/-- `Timer::cancel()`: what it returns, and the manager after it. -/
def cancel (i : Nat) (m : Manager γ) : Option (Bool × Manager γ) :=
  if (m.timers i).cb.isSome then
    let m := m.modify i fun t => { t with cb := none }
    (m.eraseAt (m.find i)).map fun m => (true, m)
  else some (false, m)

/-- `Timer::refresh()`. -/
def refresh (i : Nat) (now : UInt64) (m : Manager γ) : Option (Bool × Manager γ) :=
  if (m.timers i).cb.isSome then
    match m.find i with
    | none => some (false, m)
    | some j => (m.eraseAt (some j)).map fun m =>
      let m := m.setNext i (now + (m.timers i).ms)
      (true, m.insert i)
  else some (false, m)

/-- `Timer::reset(ms, from_now)`. -/
def reset (i : Nat) (ms : UInt64) (fromNow : Bool) (now : UInt64) (m : Manager γ) : Option (Bool × Manager γ) :=
  if ms = (m.timers i).ms ∧ ¬ fromNow then some (true, m)
  else if (m.timers i).cb.isSome then
    match m.find i with
    | none => some (false, m)
    | some j => (m.eraseAt (some j)).map fun m =>
      let start := if fromNow then now else (m.timers i).next - (m.timers i).ms
      let m := m.modify i fun t => { t with ms }
      let m := m.setNext i (start + ms)
      (true, m.addTimerLocked i)
  else some (false, m)

/-- The turn of the loop of `listExpiredCb` for one expired timer. -/
def collect (now : UInt64) (m : Manager γ) (i : Nat) : Manager γ :=
  if (m.timers i).recurring then ((m.erase i).setNext i (now + (m.timers i).ms)).insert i
  else m.erase i

/-- The timers that `listExpiredCb` finds due: those up to a timer for now with an address of its own. -/
def expired (now : UInt64) (addr : Nat) (m : Manager γ) : List Nat :=
  OrdSet.upTo m.key (toLex (now.toNat, addr)) m.set

/-- `listExpiredCb(cbs)`, with the address of `now_timer` and what the clock reads: the timers with the callbacks
handed out, and the manager after it. -/
def listExpiredCb (now : UInt64) (addr : Nat) (m : Manager γ) :
    Option (List (Nat × Option (Callback γ)) × Manager γ) :=
  if m.Free addr then
    some ((m.expired now addr).map fun i => (i, (m.timers i).cb), (m.expired now addr).foldl (collect now) m)
  else none

/-- `getNextTimer()`. -/
def getNextTimer (now : UInt64) (m : Manager γ) : UInt64 × Manager γ :=
  let m := { m with tickled := false }
  match m.set with
  | [] => (-1, m)
  | i :: _ => (if (m.timers i).next ≤ now then 0 else (m.timers i).next - now, m)

/-- A caller lets go of the timer. -/
def release (i : Nat) (m : Manager γ) : Manager γ := m.modify i fun t => { t with held := false }

end Manager

/-! ### Runs -/

/-- The calls, with what the clock reads and the addresses the allocator gives. -/
inductive Call (γ : Type)
  | addTimer (addr : Nat) (ms : UInt64) (cb : Option γ) (recurring : Bool) (now : UInt64)
  | addConditionTimer (addr : Nat) (ms : UInt64) (cb : Option γ) (cond : Nat) (recurring : Bool) (now : UInt64)
  | cancel (i : Nat)
  | refresh (i : Nat) (now : UInt64)
  | reset (i : Nat) (ms : UInt64) (fromNow : Bool) (now : UInt64)
  | listExpiredCb (now : UInt64) (addr : Nat)
  | getNextTimer (now : UInt64)
  | release (i : Nat)
  deriving DecidableEq, Repr

/-- What a call did, as its caller sees it. -/
inductive Event (γ : Type)
  | added (i : Nat) (ms : UInt64) (cb : Option (Callback γ)) (recurring : Bool) (now : UInt64)
  | cancelled (i : Nat) (ret : Bool)
  | refreshed (i : Nat) (now : UInt64) (ret : Bool)
  | reset (i : Nat) (ms : UInt64) (fromNow : Bool) (now : UInt64) (ret : Bool)
  | expired (now : UInt64) (cbs : List (Nat × Option (Callback γ)))
  | nextTimer (ret : UInt64)
  | released (i : Nat)
  deriving DecidableEq, Repr

/-- The manager and its history. -/
structure World (γ : Type) where
  mgr : Manager γ
  log : List (Event γ)

namespace World

variable (w : World γ)

/-- A caller has the timer. -/
def Handle (i : Nat) : Prop := i < w.mgr.count ∧ (w.mgr.timers i).held = true

/-- Whether a timer is held can be computed. -/
instance (i : Nat) : Decidable (w.Handle i) := inferInstanceAs (Decidable (_ ∧ _))

/-- The state after a call, or none when there is no such call or it is undefined. -/
def next : Call γ → Option (World γ)
  | .addTimer addr ms cb recurring now =>
    (w.mgr.addTimer addr ms (cb.map .fn) recurring now).map fun m =>
      ⟨m, w.log ++ [.added w.mgr.count ms (cb.map .fn) recurring now]⟩
  | .addConditionTimer addr ms cb cond recurring now =>
    (w.mgr.addConditionTimer addr ms cb cond recurring now).map fun m =>
      ⟨m, w.log ++ [.added w.mgr.count ms (some (.onTimer cond cb)) recurring now]⟩
  | .cancel i =>
    if w.Handle i then (w.mgr.cancel i).map fun r => ⟨r.2, w.log ++ [.cancelled i r.1]⟩ else none
  | .refresh i now =>
    if w.Handle i then (w.mgr.refresh i now).map fun r => ⟨r.2, w.log ++ [.refreshed i now r.1]⟩ else none
  | .reset i ms fromNow now =>
    if w.Handle i then
      (w.mgr.reset i ms fromNow now).map fun r => ⟨r.2, w.log ++ [.reset i ms fromNow now r.1]⟩
    else none
  | .listExpiredCb now addr =>
    (w.mgr.listExpiredCb now addr).map fun r => ⟨r.2, w.log ++ [.expired now r.1]⟩
  | .getNextTimer now =>
    let r := w.mgr.getNextTimer now
    some ⟨r.2, w.log ++ [.nextTimer r.1]⟩
  | .release i => if w.Handle i then some ⟨w.mgr.release i, w.log ++ [.released i]⟩ else none

end World

/-- The timer manager as a system. -/
def system : System (World γ) (Call γ) := ⟨⟨.new, []⟩, World.next⟩

end Timers
end Wuchat
