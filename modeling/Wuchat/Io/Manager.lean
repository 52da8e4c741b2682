/-
# Event registrations of the IO manager

`iomanager.cpp`: an `IOManager` keeps one context per descriptor, with the events registered on it
and, for each of them, what is scheduled when the event comes.  `addEvent` registers an event and
tells epoll, `delEvent` drops it, `cancelEvent` and `cancelAll` schedule what waits for it, and
`idle` does so for what `epoll_wait` reports.

Every call is one step, as it is under the mutex of the descriptor.  What `epoll_wait` returned
stays with its thread and is handled item by item, each in a step of its own, so an item may be
stale when its turn comes.  The answer of `epoll_ctl` is a parameter of each step; the kernel
refuses to add a descriptor it has and to change or delete one it does not have.

A failed assertion aborts the program, and nothing happens after that.  A call through a null
scheduler and an overflow of `fd * 2` are undefined and have no result.

Left out: the pipe that wakes `epoll_wait` up, the timers (`Timer.Manager`), logging.  The numbers
of the registrations and the history are there for the proofs.
-/

import Mathlib.Algebra.Group.Nat.Defs
import Mathlib.Data.Finset.Prod
import Mathlib.Logic.Function.Basic
import Wuchat.Foundation.System

namespace Wuchat
namespace Io

open Foundation

/-- The events one registers: `READ` and `WRITE`. -/
inductive Event
  | read
  | write
  deriving DecidableEq, Repr

/-- Events joined by `|`. -/
structure Mask where
  read : Bool
  write : Bool
  deriving DecidableEq, Repr

namespace Mask

variable (m : Mask) (e : Event)

/-- `NONE`. -/
def none : Mask := ⟨false, false⟩

/-- `m & e`. -/
def has : Event → Bool
  | .read => m.read
  | .write => m.write

/-- The mask with the events that meet a test. -/
def ofFn (f : Event → Bool) : Mask := ⟨f .read, f .write⟩

/-- `m | e`. -/
def add : Mask := ofFn fun x => m.has x || decide (x = e)

/-- `m & ~e`. -/
def remove : Mask := ofFn fun x => m.has x && !decide (x = e)

/-- `m | r`. -/
def union (r : Mask) : Mask := ofFn fun x => m.has x || r.has x

/-- `m & r`. -/
def inter (r : Mask) : Mask := ofFn fun x => m.has x && r.has x

/-- `m & ~r`. -/
def diff (r : Mask) : Mask := ofFn fun x => m.has x && !r.has x

end Mask

/-- What a call hands to a scheduler: a function, or a fiber. -/
inductive Work
  | cb (f : Nat)
  | fiber (f : Option Nat)
  deriving DecidableEq, Repr

/-- `EventContext`, with the number of the registration it holds. -/
structure EventContext where
  scheduler : Option Nat
  fiber : Option Nat
  cb : Option Nat
  reg : Nat
  deriving DecidableEq, Repr

namespace EventContext

/-- A context after `resetEventContext`. -/
def empty : EventContext := ⟨none, none, none, 0⟩

/-- `scheduler`, `fiber` or `cb` is set. -/
def NonEmpty (c : EventContext) : Prop := c.scheduler.isSome ∨ c.fiber.isSome ∨ c.cb.isSome

/-- Whether a context holds work can be computed. -/
instance (c : EventContext) : Decidable c.NonEmpty := inferInstanceAs (Decidable (_ ∨ _))

/-- What `triggerEvent` schedules: the callback, or else the fiber. -/
def work (c : EventContext) : Work :=
  match c.cb with
  | some f => .cb f
  | none => .fiber c.fiber

end EventContext

/-- `FdContext`; its `fd` is its index. -/
structure FdContext where
  read : EventContext
  write : EventContext
  event : Mask
  deriving DecidableEq, Repr

namespace FdContext

/-- `new FdContext`. -/
def new : FdContext := ⟨.empty, .empty, .none⟩

/-- `getEventContext(e)`. -/
def getEventContext (c : FdContext) : Event → EventContext
  | .read => c.read
  | .write => c.write

/-- A write to an event context. -/
def setEventContext (c : FdContext) (ctx : EventContext) : Event → FdContext
  | .read => { c with read := ctx }
  | .write => { c with write := ctx }

/-- A write to the events. -/
def setEvent (c : FdContext) (event : Mask) : FdContext := { c with event }

/-- An event taken off, and its context reset. -/
def clear (c : FdContext) (e : Event) : FdContext := (c.setEvent (c.event.remove e)).setEventContext .empty e

end FdContext

/-- An `epoll_event` that `epoll_wait` returned: the descriptor, which of `EPOLLIN` and `EPOLLOUT` are
set, and whether `EPOLLERR` or `EPOLLHUP` is. -/
structure Item where
  fd : Nat
  events : Mask
  err : Bool
  deriving DecidableEq, Repr

/-- `real_events`, for the events registered when the item is handled. -/
def Item.realEvents (item : Item) (event : Mask) : Mask :=
  if item.err then item.events.union event else item.events

/-- What a call does to a registration. -/
inductive Effect
  | added (reg fd : Nat) (e : Event) (scheduler : Option Nat) (work : Work)
  | dropped (reg : Nat)
  | handed (reg : Nat) (scheduler : Option Nat) (work : Work)
  deriving DecidableEq, Repr

/-- `IOManager`: its contexts, the descriptors epoll watches, `m_pendingEventCount`, and the items each
thread still has to handle. -/
structure Manager where
  size : Nat
  contexts : Nat → FdContext
  interest : Nat → Option Mask
  pending : UInt64
  items : Nat → List Item
  aborted : Bool
  count : Nat

/-- The operations of `epoll_ctl`. -/
inductive Op
  | add
  | mod
  | del
  deriving DecidableEq, Repr

/-- `left ? EPOLL_CTL_MOD : EPOLL_CTL_DEL`. -/
def modOrDel (left : Mask) : Op := if left = .none then .del else .mod

/-- What a call returns, what it did to the registrations, and the manager after it. -/
structure Result where
  ret : Bool
  effects : List Effect
  mgr : Manager

namespace Manager

variable (m : Manager)

/-- `IOManager()`. -/
def new : Manager := ⟨32, fun _ => .new, fun _ => none, 0, fun _ => [], false, 0⟩

/-- An assertion failed. -/
def abort : Manager := { m with aborted := true }

/-- A write to the context of a descriptor. -/
def setContext (fd : Nat) (c : FdContext) : Manager := { m with contexts := Function.update m.contexts fd c }

/-- `contextResize(size)`. -/
def contextResize (size : Nat) : Manager :=
  { m with size, contexts := fun i => if i < size then m.contexts i else .new }

/-- What epoll watches a descriptor for. -/
def watch (fd : Nat) (mask : Option Mask) : Manager := { m with interest := Function.update m.interest fd mask }

/-- `epoll_ctl(m_epfd, op, fd, event)`, or none when it fails. -/
def epollCtl (op : Op) (fd : Nat) (mask : Mask) (ok : Bool) : Option Manager :=
  if ok then
    match op, m.interest fd with
    | .add, none => some (m.watch fd (some mask))
    | .mod, some _ => some (m.watch fd (some mask))
    | .del, some _ => some (m.watch fd none)
    | _, _ => none
  else none

/-- The context lookup of `addEvent`. -/
def grow (fd : Nat) : Option Manager :=
  if fd < m.size then some m
  else if fd * 2 < 2 ^ 31 then some (m.contextResize (fd * 2))
  else none

/-- `addEvent(fd, e, cb)`, called under a scheduler and from a fiber. -/
def addEvent (fd : Nat) (e : Event) (scheduler : Option Nat) (fiber : Nat) (cb : Option Nat) (ok : Bool) :
    Option Result :=
  (m.grow fd).map fun m =>
    let c := m.contexts fd
    if c.event.has e then ⟨false, [], m.abort⟩
    else
      match m.epollCtl (if c.event = .none then .add else .mod) fd (c.event.add e) ok with
      | none => ⟨false, [], m⟩
      | some m =>
        let m := { m with pending := m.pending + 1 }
        let c := c.setEvent (c.event.add e)
        if (c.getEventContext e).NonEmpty then ⟨false, [], (m.setContext fd c).abort⟩
        else
          let ctx : EventContext := ⟨scheduler, if cb.isSome then none else some fiber, cb, m.count⟩
          ⟨true, [.added m.count fd e scheduler ctx.work],
            { m.setContext fd (c.setEventContext ctx e) with count := m.count + 1 }⟩

/-- An event taken off its descriptor, and one pending event less. -/
def unregister (fd : Nat) (e : Event) : Manager :=
  { m.setContext fd ((m.contexts fd).clear e) with pending := m.pending - 1 }

/-- `delEvent(fd, e)`. -/
def delEvent (fd : Nat) (e : Event) (ok : Bool) : Result :=
  if m.size ≤ fd then ⟨false, [], m⟩
  else
    let c := m.contexts fd
    if c.event.has e then
      let left := c.event.remove e
      match m.epollCtl (modOrDel left) fd left ok with
      | none => ⟨false, [], m⟩
      | some m => ⟨true, [.dropped (c.getEventContext e).reg], m.unregister fd e⟩
    else ⟨false, [], m⟩

/-- `triggerEvent(e)` on the context of a descriptor. -/
def triggerEvent (fd : Nat) (e : Event) : Option (List Effect × Manager) :=
  let c := m.contexts fd
  if c.event.has e then
    let ctx := c.getEventContext e
    if ctx.scheduler.isSome then
      some ([.handed ctx.reg ctx.scheduler ctx.work], m.setContext fd (c.clear e))
    else none
  else some ([], m.abort)

/-- `triggerEvent(e)` and `--m_pendingEventCount`, unless the program has aborted. -/
def fire (fd : Nat) (e : Event) (r : Result) : Option Result :=
  if r.mgr.aborted then some r
  else
    (r.mgr.triggerEvent fd e).map fun t =>
      if t.2.aborted then ⟨r.ret, r.effects, t.2⟩
      else ⟨r.ret, r.effects ++ t.1, { t.2 with pending := t.2.pending - 1 }⟩

/-- The event is fired if a test says so. -/
def fireIf (test : Bool) (fd : Nat) (e : Event) (r : Result) : Option Result :=
  if test then fire fd e r else some r

/-- `cancelEvent(fd, e)`. -/
def cancelEvent (fd : Nat) (e : Event) (ok : Bool) : Option Result :=
  if m.size ≤ fd then some ⟨false, [], m⟩
  else
    let c := m.contexts fd
    if c.event.has e then
      let left := c.event.remove e
      match m.epollCtl (modOrDel left) fd left ok with
      | none => some ⟨false, [], m⟩
      | some m => fire fd e ⟨true, [], m⟩
    else some ⟨false, [], m⟩

/-- `cancelAll(fd)`. -/
def cancelAll (fd : Nat) (ok : Bool) : Option Result :=
  if m.size ≤ fd then some ⟨false, [], m⟩
  else
    let c := m.contexts fd
    if c.event = .none then some ⟨false, [], m⟩
    else
      match m.epollCtl .del fd .none ok with
      | none => some ⟨false, [], m⟩
      | some m =>
        (fireIf (c.event.has .read) fd .read ⟨true, [], m⟩).bind fun r =>
        (fireIf ((r.mgr.contexts fd).event.has .write) fd .write r).map fun r =>
          if (r.mgr.contexts fd).event = .none then r else ⟨r.ret, r.effects, r.mgr.abort⟩

/-- The turn of the loop of `idle` for one item; false when it does not get past its two `continue`s. -/
def process (item : Item) (ok : Bool) : Option Result :=
  let c := m.contexts item.fd
  let real := item.realEvents c.event
  if c.event.inter real = .none then some ⟨false, [], m⟩
  else
    let left := c.event.diff real
    match m.epollCtl (modOrDel left) item.fd left ok with
    | none => some ⟨false, [], m⟩
    | some m =>
      (fireIf (real.has .read) item.fd .read ⟨true, [], m⟩).bind fun r =>
      fireIf (real.has .write) item.fd .write r

/-- The item may be reported: its events are among those epoll watches for. -/
def Reportable (item : Item) : Prop := ∃ mask ∈ m.interest item.fd, item.events.diff mask = .none

/-- Whether epoll may report an item can be computed. -/
instance (item : Item) : Decidable (m.Reportable item) :=
  inferInstanceAs (Decidable (∃ mask ∈ m.interest item.fd, item.events.diff mask = .none))

/-- `epoll_wait` in `idle` of a thread that has handled what it got before. -/
def wait (thread : Nat) (items : List Item) : Option Result :=
  if m.items thread = [] ∧ items.length ≤ 256 ∧ ∀ item ∈ items, m.Reportable item then
    some ⟨true, [], { m with items := Function.update m.items thread items }⟩
  else none

/-- The next item of a thread. -/
def processNext (thread : Nat) (ok : Bool) : Option Result :=
  match m.items thread with
  | [] => none
  | item :: items => { m with items := Function.update m.items thread items }.process item ok

end Manager

/-! ### Runs -/

/-- The steps, with the answers of `epoll_ctl`. -/
inductive Call
  | addEvent (fd : Nat) (e : Event) (scheduler : Option Nat) (fiber : Nat) (cb : Option Nat) (ok : Bool)
  | delEvent (fd : Nat) (e : Event) (ok : Bool)
  | cancelEvent (fd : Nat) (e : Event) (ok : Bool)
  | cancelAll (fd : Nat) (ok : Bool)
  | wait (thread : Nat) (items : List Item)
  | process (thread : Nat) (ok : Bool)
  deriving DecidableEq, Repr

/-- What a call does, or none when there is no such call or it is undefined. -/
def Manager.call (m : Manager) : Call → Option Result
  | .addEvent fd e scheduler fiber cb ok => m.addEvent fd e scheduler fiber cb ok
  | .delEvent fd e ok => some (m.delEvent fd e ok)
  | .cancelEvent fd e ok => m.cancelEvent fd e ok
  | .cancelAll fd ok => m.cancelAll fd ok
  | .wait thread items => m.wait thread items
  | .process thread ok => m.processNext thread ok

/-- A call of a run, with what it returned and did. -/
structure Step where
  call : Call
  ret : Bool
  effects : List Effect
  deriving DecidableEq, Repr

/-- The manager and its history. -/
structure World where
  mgr : Manager
  log : List Step

/-- The state after a call; there is none after an abort. -/
def World.next (w : World) (c : Call) : Option World :=
  if w.mgr.aborted then none
  else (w.mgr.call c).map fun r => ⟨r.mgr, w.log ++ [⟨c, r.ret, r.effects⟩]⟩

/-- The IO manager as a system. -/
def system : System World Call := ⟨⟨.new, []⟩, World.next⟩

/-- What became of the registrations. -/
def World.history (w : World) : List Effect := w.log.flatMap Step.effects

end Io
end Wuchat
