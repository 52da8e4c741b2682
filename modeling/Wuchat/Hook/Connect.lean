/-
# Waiting inside `connect_with_timeout`

`hook.cpp`: the hooked `connect` calls the system's one.  When the connection is in progress, it arms a
condition timer with its timeout, registers the current fiber for the WRITE event of the socket and
yields.  Readiness, a `close` of the socket by another fiber, or the callback of the timer ends the
registration and schedules the fiber.  The fiber then cancels the timer, looks at the flag of the
`timer_info`, and at last asks the socket what has become of the connection (`SO_ERROR`).  When the
registration fails it goes to that question at once.

The parties are the fiber, the timer and its callback on whatever thread, the peer, readiness, a `close`
by another fiber, and a clock that moves forward; their steps come in any order.  Readiness is reported for a
connection that has been decided.  A descriptor number that is given out again after the `close` is
not modelled: `getsockopt` fails then.  As in `do_io`, `cancel()` of a timer that was collected erases the end
iterator, and has no next state.

What the call returns means what it says (`connect_answers`), with one exception: a call whose registration
failed returns 0 while the connection may still be in progress (`connected_in_progress`).  It never returns
`ETIMEDOUT`: the flag is set only when the timer was collected, and then the call comes to that `cancel()` first.
-/

import Mathlib.Data.List.Basic
import Wuchat.Hook.DoIo

namespace Wuchat
namespace Connect

open Foundation
open Fds (FdContext)
open DoIo (TimerStage WaitTimer)

/-- How `connect_with_timeout` begins: with the bare system call, with `EBADF`, or with a call that may wait. -/
inductive Entry
  | direct
  | badFd
  | wait (timeout : UInt64)
  deriving DecidableEq, Repr

/-- The tests at the start of `connect_with_timeout`. -/
def entry (hookEnable : Bool) (ctx : Option FdContext) (timeout : UInt64) : Entry :=
  if !hookEnable then .direct
  else match ctx with
    | none => .badFd
    | some ctx =>
      if ctx.isClosed then .badFd
      else if !ctx.isSocket || ctx.isUserNonBlock then .direct
      else .wait timeout

/-- The answer of `connect_f`: 0, or -1 with an error. -/
inductive Answer
  | ok
  | EINPROGRESS
  | error (errno : Nat)
  deriving DecidableEq, Repr

/-- What `connect_with_timeout` returns: the answer of `connect_f`, -1 with `EBADF`, -1 with `ETIMEDOUT`, -1
because `getsockopt` failed, 0, or -1 with the error of the socket. -/
inductive Outcome
  | result (r : Answer)
  | badFd
  | timedOut
  | noSocket
  | connected
  | failed (errno : Nat)
  deriving DecidableEq, Repr

/-- Where the call is. -/
inductive Place
  | direct
  | calling
  | arming
  | registering
  | yielding
  | suspended
  | resumed
  | refused
  | checking
  | asking
  | returned (o : Outcome)
  deriving DecidableEq, Repr

/-- A call of `connect_with_timeout`: the flag of its `timer_info`, its timer and its registration, how often its
fiber is in the queue of the scheduler, what the peer decided (0 is an established connection), and whether
the socket was closed. -/
structure Call where
  place : Place
  timeout : UInt64
  cancelled : Bool
  now : UInt64
  timer : Option WaitTimer
  registered : Bool
  queued : Nat
  peer : Option Nat
  closed : Bool
  deriving DecidableEq, Repr

/-- The steps: those of the call, of its timer and the callback, of the peer, readiness, a `close`, and the clock. -/
inductive Move
  | connect (r : Answer)
  | arm
  | addEvent (ok : Bool)
  | yield
  | resume
  | cancelTimer
  | check
  | getsockopt
  | settle (errno : Nat)
  | ready
  | close (ok : Bool)
  | collect
  | callback
  | cancelEvent (ok : Bool)
  | tick (now : UInt64)
  deriving DecidableEq, Repr

namespace Call

/-- The start of a call. -/
def new (e : Entry) (now : UInt64) : Call where
  place := match e with
    | .direct => .direct
    | .badFd => .returned .badFd
    | .wait _ => .calling
  timeout := match e with
    | .wait timeout => timeout
    | _ => -1
  cancelled := false
  now := now
  timer := none
  registered := false
  queued := 0
  peer := none
  closed := false

/-- The registration ends and the fiber is scheduled. -/
def trigger (s : Call) : Call := { s with registered := false, queued := s.queued + 1 }

/-- The timer comes to a stage. -/
def setStage (s : Call) (t : WaitTimer) (stage : TimerStage) : Call := { s with timer := some { t with stage } }

/-- `timer->cancel()`, if there is a timer; a collected one still has its `m_cb`, and the end iterator is erased. -/
def cancelTimer (s : Call) (place : Place) : Option Call :=
  match s.timer with
  | none => some { s with place }
  | some t =>
    match t.stage with
    | .pending => some { s.setStage t .cancelled with place }
    | .cancelled => some { s with place }
    | _ => none

/-- The callback up to `cancelEvent`: it ends at once if the `timer_info` is gone or its flag set. -/
def callback (s : Call) (t : WaitTimer) : Call :=
  match s.place with
  | .returned _ => s.setStage t .done
  | _ => if s.cancelled then s.setStage t .done else { s.setStage t .flagged with cancelled := true }

/-- `getsockopt(SO_ERROR)` and what is made of it.  A connection in progress has no error. -/
def ask (s : Call) : Outcome :=
  if s.closed then .noSocket
  else match s.peer with
    | none | some 0 => .connected
    | some e => .failed e

/-- The state after a step. -/
def next (s : Call) : Move → Option Call
  | .connect r =>
    match s.place with
    | .direct => some { s with place := .returned (.result r) }
    | .calling => some { s with place := if r = .EINPROGRESS then .arming else .returned (.result r) }
    | _ => none
  | .arm =>
    if s.place = .arming then
      some { s with
        place := .registering
        timer := if s.timeout = -1 then none else some ⟨s.now, s.now + s.timeout, .pending⟩ }
    else none
  | .addEvent ok =>
    if s.place = .registering then
      some (if ok then { s with place := .yielding, registered := true } else { s with place := .refused })
    else none
  | .yield => if s.place = .yielding then some { s with place := .suspended } else none
  | .resume =>
    if s.place = .suspended ∧ 0 < s.queued then
      some { s with place := .resumed, queued := s.queued - 1 }
    else none
  | .cancelTimer =>
    match s.place with
    | .resumed => s.cancelTimer .checking
    | .refused => s.cancelTimer .asking
    | _ => none
  | .check =>
    if s.place = .checking then
      some { s with place := if s.cancelled then .returned .timedOut else .asking }
    else none
  | .getsockopt => if s.place = .asking then some { s with place := .returned s.ask } else none
  | .settle e => if s.peer = none then some { s with peer := some e } else none
  | .ready => if s.registered ∧ s.peer.isSome ∧ s.closed = false then some s.trigger else none
  | .close ok =>
    if s.closed then none
    else some (if s.registered ∧ ok then { s.trigger with closed := true } else { s with closed := true })
  | .collect =>
    match s.timer with
    | some t => if t.stage = .pending ∧ t.next ≤ s.now then some (s.setStage t .collected) else none
    | none => none
  | .callback =>
    match s.timer with
    | some t => if t.stage = .collected then some (s.callback t) else none
    | none => none
  | .cancelEvent ok =>
    match s.timer with
    | some t =>
      if t.stage = .flagged then
        some (if s.registered ∧ ok then (s.setStage t .done).trigger else s.setStage t .done)
      else none
    | none => none
  | .tick now => if s.now ≤ now then some { s with now } else none

end Call

/-- What a step does, with what it needs. -/
inductive Call.Step (s : Call) : Move → Call → Prop
  | direct (r : Answer) (hplace : s.place = .direct) :
      Step s (.connect r) { s with place := .returned (.result r) }
  | begun (hplace : s.place = .calling) : Step s (.connect .EINPROGRESS) { s with place := .arming }
  | answered (r : Answer) (hplace : s.place = .calling) (hr : r ≠ .EINPROGRESS) :
      Step s (.connect r) { s with place := .returned (.result r) }
  | arm (hplace : s.place = .arming) :
      Step s .arm { s with
        place := .registering
        timer := if s.timeout = -1 then none else some ⟨s.now, s.now + s.timeout, .pending⟩ }
  | registered (hplace : s.place = .registering) :
      Step s (.addEvent true) { s with place := .yielding, registered := true }
  | refused (hplace : s.place = .registering) : Step s (.addEvent false) { s with place := .refused }
  | yield (hplace : s.place = .yielding) : Step s .yield { s with place := .suspended }
  | resume (hplace : s.place = .suspended) (hqueued : 0 < s.queued) :
      Step s .resume { s with place := .resumed, queued := s.queued - 1 }
  | resumed {t : Call} (hplace : s.place = .resumed) (hcancel : s.cancelTimer .checking = some t) :
      Step s .cancelTimer t
  | skipped {t : Call} (hplace : s.place = .refused) (hcancel : s.cancelTimer .asking = some t) :
      Step s .cancelTimer t
  | timedOut (hplace : s.place = .checking) (hset : s.cancelled = true) :
      Step s .check { s with place := .returned .timedOut }
  | clear (hplace : s.place = .checking) (hclear : s.cancelled ≠ true) : Step s .check { s with place := .asking }
  | asked (hplace : s.place = .asking) : Step s .getsockopt { s with place := .returned s.ask }
  | settle (e : Nat) (hopen : s.peer = none) : Step s (.settle e) { s with peer := some e }
  | ready (hreg : s.registered = true) (hpeer : s.peer.isSome) (hopen : s.closed = false) : Step s .ready s.trigger
  | closed (hreg : s.registered = true) (hopen : s.closed = false) :
      Step s (.close true) { s.trigger with closed := true }
  | shut (ok : Bool) (hopen : s.closed = false) (hquiet : ¬ (s.registered = true ∧ ok = true)) :
      Step s (.close ok) { s with closed := true }
  | collect {x : WaitTimer} (hx : s.timer = some x) (hstage : x.stage = .pending) (hdue : x.next ≤ s.now) :
      Step s .collect (s.setStage x .collected)
  | callback {x : WaitTimer} (hx : s.timer = some x) (hstage : x.stage = .collected) :
      Step s .callback (s.callback x)
  | woken {x : WaitTimer} (hx : s.timer = some x) (hstage : x.stage = .flagged) (hreg : s.registered = true) :
      Step s (.cancelEvent true) (s.setStage x .done).trigger
  | done {x : WaitTimer} (ok : Bool) (hx : s.timer = some x) (hstage : x.stage = .flagged)
      (hquiet : ¬ (s.registered = true ∧ ok = true)) : Step s (.cancelEvent ok) (s.setStage x .done)
  | tick (now : UInt64) (hle : s.now ≤ now) : Step s (.tick now) { s with now }

/-- **Every step is one of these.** -/
theorem Call.step_of_next {s t : Call} {move : Move} (hn : s.next move = some t) : s.Step move t := by
  cases move with
  | connect r =>
    simp only [next] at hn
    split at hn
    · obtain rfl := Option.some.inj hn
      exact .direct r ‹_›
    · obtain rfl := Option.some.inj hn
      split
      · rename_i hr
        subst hr
        exact .begun ‹_›
      · exact .answered r ‹_› ‹_›
    · cases hn
  | arm =>
    obtain ⟨hplace, ⟨⟩⟩ := Option.ite_none_right_eq_some.mp hn
    exact .arm hplace
  | addEvent ok =>
    obtain ⟨hplace, heq⟩ := Option.ite_none_right_eq_some.mp hn
    obtain rfl := Option.some.inj heq
    cases ok with
    | true => exact .registered hplace
    | false => exact .refused hplace
  | yield =>
    obtain ⟨hplace, ⟨⟩⟩ := Option.ite_none_right_eq_some.mp hn
    exact .yield hplace
  | resume =>
    obtain ⟨hplace, ⟨⟩⟩ := Option.ite_none_right_eq_some.mp hn
    exact .resume hplace.1 hplace.2
  | cancelTimer =>
    simp only [next] at hn
    split at hn
    · exact .resumed ‹_› hn
    · exact .skipped ‹_› hn
    · cases hn
  | check =>
    obtain ⟨hplace, heq⟩ := Option.ite_none_right_eq_some.mp hn
    obtain rfl := Option.some.inj heq
    split
    · exact .timedOut hplace ‹_›
    · exact .clear hplace ‹_›
  | getsockopt =>
    obtain ⟨hplace, ⟨⟩⟩ := Option.ite_none_right_eq_some.mp hn
    exact .asked hplace
  | settle e =>
    obtain ⟨hopen, ⟨⟩⟩ := Option.ite_none_right_eq_some.mp hn
    exact .settle e hopen
  | ready =>
    obtain ⟨⟨hreg, hpeer, hopen⟩, ⟨⟩⟩ := Option.ite_none_right_eq_some.mp hn
    exact .ready hreg hpeer hopen
  | close ok =>
    obtain ⟨hclosed, heq⟩ := Option.ite_none_left_eq_some.mp hn
    obtain rfl := Option.some.inj heq
    have hopen : s.closed = false := Bool.eq_false_iff.mpr hclosed
    split
    · rename_i hreg
      obtain ⟨hreg, rfl⟩ := hreg
      exact .closed hreg hopen
    · exact .shut ok hopen ‹_›
  | collect =>
    simp only [next] at hn
    split at hn
    · obtain ⟨hdue, ⟨⟩⟩ := Option.ite_none_right_eq_some.mp hn
      exact .collect ‹_› hdue.1 hdue.2
    · cases hn
  | callback =>
    simp only [next] at hn
    split at hn
    · obtain ⟨hstage, ⟨⟩⟩ := Option.ite_none_right_eq_some.mp hn
      exact .callback ‹_› hstage
    · cases hn
  | cancelEvent ok =>
    simp only [next] at hn
    split at hn
    · obtain ⟨hstage, heq⟩ := Option.ite_none_right_eq_some.mp hn
      obtain rfl := Option.some.inj heq
      split
      · rename_i hreg
        obtain ⟨hreg, rfl⟩ := hreg
        exact .woken ‹_› hstage hreg
      · exact .done ok ‹_› hstage ‹_›
    · cases hn
  | tick now =>
    obtain ⟨hle, ⟨⟩⟩ := Option.ite_none_right_eq_some.mp hn
    exact .tick now hle

/-- A call as a system. -/
def system (e : Entry) (now : UInt64) : System Call Move := ⟨.new e now, Call.next⟩

/-! ### What the helpers leave alone -/

section Fields

variable (s : Call) (x : WaitTimer)

/-- The timer's callback leaves the caller where it is. -/
@[simp] theorem callback_place : (s.callback x).place = s.place := by
  unfold Call.callback
  split
  · rfl
  · split <;> rfl

/-- Whether the fiber is registered behind the callback. -/
@[simp] theorem callback_registered : (s.callback x).registered = s.registered := by
  unfold Call.callback
  split
  · rfl
  · split <;> rfl

/-- How often it is queued behind the callback. -/
@[simp] theorem callback_queued : (s.callback x).queued = s.queued := by
  unfold Call.callback
  split
  · rfl
  · split <;> rfl

/-- The callback leaves the peer's answer. -/
@[simp] theorem callback_peer : (s.callback x).peer = s.peer := by
  unfold Call.callback
  split
  · rfl
  · split <;> rfl

/-- The callback leaves the socket open or closed. -/
@[simp] theorem callback_closed : (s.callback x).closed = s.closed := by
  unfold Call.callback
  split
  · rfl
  · split <;> rfl

end Fields

/-- **What `cancel()` does**, where it is defined: the timer leaves `m_timers`, or it has left it by a `cancel()`
before, or there is none. -/
theorem cancelTimer_cases {s t : Call} {place : Place} (h : s.cancelTimer place = some t) :
    (t = { s with place } ∧ ∀ x, s.timer = some x → x.stage = .cancelled) ∨
      ∃ x, s.timer = some x ∧ x.stage = .pending ∧ t = { s.setStage x .cancelled with place } := by
  unfold Call.cancelTimer at h
  split at h
  · rename_i hnone
    exact .inl ⟨(Option.some.inj h).symm, fun x hx => absurd (hnone.symm.trans hx) nofun⟩
  · rename_i x hx
    split at h
    · rename_i hstage
      exact .inr ⟨x, hx, hstage, (Option.some.inj h).symm⟩
    · rename_i hstage
      exact .inl ⟨(Option.some.inj h).symm, fun y hy => Option.some.inj (hx.symm.trans hy) ▸ hstage⟩
    · cases h

/-- Behind `cancel` the caller is at the place given. -/
theorem cancelTimer_place {s t : Call} {place : Place} (h : s.cancelTimer place = some t) : t.place = place := by
  rcases cancelTimer_cases h with ⟨rfl, -⟩ | ⟨x, -, -, rfl⟩ <;> rfl

/-! ### The registration -/

/-- The fiber is registered, or its registration has ended. -/
def Place.waits : Place → Bool
  | .yielding | .suspended => true
  | _ => false

/-- In its wait the fiber is registered, or in the queue once; outside of it neither. -/
def Call.Held (s : Call) : Prop :=
  if s.place.waits then (s.registered = true ∧ s.queued = 0) ∨ (s.registered = false ∧ s.queued = 1)
  else s.registered = false ∧ s.queued = 0

section Held

variable {s t : Call} {move : Move}

/-- A fiber that does not wait is neither registered nor queued. -/
theorem Call.Held.idle (h : s.Held) (hplace : s.place.waits = false) : s.registered = false ∧ s.queued = 0 := by
  rwa [Call.Held, hplace] at h

/-- A fiber that waits is one of the two. -/
theorem Call.Held.waiting (h : s.Held) (hplace : s.place.waits = true) :
    (s.registered = true ∧ s.queued = 0) ∨ (s.registered = false ∧ s.queued = 1) := by
  rwa [Call.Held, if_pos hplace] at h

/-- The fiber is held as before. -/
theorem Call.Held.same (h : s.Held) (hplace : t.place.waits = s.place.waits) (hreg : t.registered = s.registered)
    (hq : t.queued = s.queued) : t.Held := by
  rwa [Call.Held, hplace, hreg, hq]

/-- What is registered is registered once, in the wait. -/
theorem Call.Held.of_registered (h : s.Held) (hreg : s.registered = true) :
    s.place.waits = true ∧ s.queued = 0 := by
  cases hplace : s.place.waits with
  | false => exact absurd (hreg.symm.trans (h.idle hplace).1) nofun
  | true =>
    rcases h.waiting hplace with hw | hw
    · exact ⟨rfl, hw.2⟩
    · exact absurd (hreg.symm.trans hw.1) nofun

/-- An event takes the fiber from the registration to the queue. -/
theorem Call.Held.trigger (h : s.Held) (hreg : s.registered = true) : s.trigger.Held := by
  obtain ⟨hplace, hq⟩ := h.of_registered hreg
  have hplace' : s.trigger.place.waits = true := hplace
  rw [Call.Held, if_pos hplace']
  exact .inr ⟨rfl, congrArg (· + 1) hq⟩

/-- `cancel` leaves the fiber as it is. -/
theorem Call.Held.cancelTimer {place : Place} (h : s.Held) (hcancel : s.cancelTimer place = some t)
    (hplace : s.place.waits = false) (hout : place.waits = false) : t.Held := by
  rcases cancelTimer_cases hcancel with ⟨rfl, -⟩ | ⟨x, -, -, rfl⟩ <;>
    exact h.same (hout.trans hplace.symm) rfl rfl

/-- **Every step keeps the fiber registered or in the queue, never both.** -/
theorem Call.Held.next (h : s.Held) (hstep : s.Step move t) : t.Held := by
  cases hstep with
  | direct r hplace | begun hplace | answered r hplace | arm hplace | refused hplace | timedOut hplace
  | clear hplace | asked hplace =>
    exact h.same (by rw [hplace]; rfl) rfl rfl
  | registered hplace => exact .inl ⟨rfl, (h.idle (by rw [hplace]; rfl)).2⟩
  | yield hplace => exact h.same (by rw [hplace]; rfl) rfl rfl
  | resume hplace hqueued =>
    rcases h.waiting (by rw [hplace]; rfl) with hw | hw
    · omega
    · exact ⟨hw.1, by rw [hw.2]⟩
  | resumed hplace hcancel => exact h.cancelTimer hcancel (by rw [hplace]; rfl) rfl
  | skipped hplace hcancel => exact h.cancelTimer hcancel (by rw [hplace]; rfl) rfl
  | ready hreg => exact h.trigger hreg
  | closed hreg => exact (h.trigger hreg).same rfl rfl rfl
  | woken hx hstage hreg => exact (h.same (t := s.setStage _ .done) rfl rfl rfl).trigger hreg
  | callback => exact h.same (by simp) (by simp) (by simp)
  | settle | shut | collect | done | tick => exact h.same rfl rfl rfl

/-- A new call holds nothing. -/
theorem held_new (e : Entry) (now : UInt64) : (Call.new e now).Held := by
  cases e <;> exact ⟨rfl, rfl⟩

end Held

/-! ### The timer and its flag -/

/-- The call has armed its timer, if it has one, and has not cancelled it yet. -/
def Place.armed : Place → Bool
  | .registering | .yielding | .suspended | .resumed | .refused => true
  | _ => false

/-- **The timer of a call** is cancelled before the call looks at the flag, and only the callback of a collected
timer sets that. -/
structure Timed (s : Call) : Prop where
  timer : ∀ x, s.timer = some x → x.stage = .cancelled ∨ s.place.armed = true
  flag : s.cancelled = true →
    s.place.armed = true ∧ ∃ x, s.timer = some x ∧ (x.stage = .flagged ∨ x.stage = .done)
  set : ∀ x, s.timer = some x → x.stage = .flagged → s.cancelled = true

section Timed

variable {s t : Call} {move : Move}

/-- A step that leaves the timer and the flag alone, and a wait only for another place of it. -/
theorem Timed.go (h : Timed s) (htimer : t.timer = s.timer) (hset : t.cancelled = s.cancelled)
    (hplace : s.place.armed = true → t.place.armed = true) : Timed t := by
  refine ⟨fun x hx => ?_, fun hc => ?_, fun x hx hstage => hset.trans (h.set x (htimer ▸ hx) hstage)⟩
  · exact (h.timer x (htimer ▸ hx)).imp_right hplace
  · obtain ⟨harmed, hlate⟩ := h.flag (hset ▸ hc)
    exact ⟨hplace harmed, htimer ▸ hlate⟩

/-- Outside a wait the flag is clear. -/
theorem Timed.clear (h : Timed s) (hplace : s.place.armed = false) : s.cancelled = false := by
  cases hset : s.cancelled with
  | false => rfl
  | true => exact absurd ((h.flag hset).1.symm.trans hplace) nofun

/-- A timer that is not cancelled belongs to a wait. -/
theorem Timed.armed (h : Timed s) {x : WaitTimer} (hx : s.timer = some x) (hstage : x.stage ≠ .cancelled) :
    s.place.armed = true :=
  (h.timer x hx).resolve_left hstage

/-- With a timer that its callback has not flagged the flag is clear. -/
theorem Timed.unset (h : Timed s) {x : WaitTimer} (hx : s.timer = some x) (hflagged : x.stage ≠ .flagged)
    (hdone : x.stage ≠ .done) : s.cancelled = false := by
  cases hset : s.cancelled with
  | false => rfl
  | true =>
    obtain ⟨-, y, hy, hlate⟩ := h.flag hset
    obtain rfl := Option.some.inj (hx.symm.trans hy)
    rcases hlate with hs | hs
    · exact absurd hs hflagged
    · exact absurd hs hdone

/-- A timer comes to a stage without a flag, and while that is set to its last one. -/
theorem Timed.setStage (h : Timed s) {x : WaitTimer} {stage : TimerStage} (hx : s.timer = some x)
    (hold : x.stage ≠ .cancelled) (hset : s.cancelled = true → stage = .done) (hnew : stage ≠ .flagged) :
    Timed (s.setStage x stage) := by
  have harmed := h.armed hx hold
  refine ⟨fun _ _ => .inr harmed, fun hc => ⟨harmed, _, rfl, .inr (hset hc)⟩, fun y hy hstage => ?_⟩
  obtain rfl := Option.some.inj hy
  exact absurd hstage hnew

/-- **A `cancel()` that is defined** leaves a timer that is cancelled, and finds the flag clear. -/
theorem Timed.cancelTimer {place : Place} (h : Timed s) (hcancel : s.cancelTimer place = some t) :
    Timed t ∧ t.cancelled = false := by
  rcases cancelTimer_cases hcancel with ⟨rfl, hgone⟩ | ⟨x, hx, hstage, rfl⟩
  · have hclear : s.cancelled = false := by
      cases hx : s.timer with
      | none =>
        cases hset : s.cancelled with
        | false => rfl
        | true =>
          obtain ⟨-, y, hy, -⟩ := h.flag hset
          cases hx.symm.trans hy
      | some x => exact h.unset hx (by rw [hgone x hx]; nofun) (by rw [hgone x hx]; nofun)
    refine ⟨⟨fun x hx => .inl (hgone x hx), fun hc => absurd (hclear.symm.trans hc) nofun, ?_⟩, hclear⟩
    exact fun x hx hstage => absurd ((hgone x hx).symm.trans hstage) nofun
  · have hclear : s.cancelled = false := h.unset hx (by rw [hstage]; nofun) (by rw [hstage]; nofun)
    refine ⟨⟨fun y hy => .inl ?_, fun hc => absurd (hclear.symm.trans hc) nofun, fun y hy hflag => ?_⟩, hclear⟩
    · obtain rfl := Option.some.inj hy
      rfl
    · obtain rfl := Option.some.inj hy
      cases hflag

/-- The callback of a collected timer keeps what is known of it. -/
theorem Timed.callback (h : Timed s) {x : WaitTimer} (hx : s.timer = some x) (hstage : x.stage = .collected) :
    Timed (s.callback x) := by
  have hold : x.stage ≠ .cancelled := by rw [hstage]; nofun
  unfold Call.callback
  split
  · exact h.setStage hx hold (fun _ => rfl) nofun
  · split
    · exact h.setStage hx hold (fun _ => rfl) nofun
    · exact ⟨fun _ _ => .inr (h.armed hx hold), fun _ => ⟨h.armed hx hold, _, rfl, .inl rfl⟩, fun _ _ _ => rfl⟩

/-- **Every step keeps the timer in order.** -/
theorem Timed.next (h : Timed s) (hstep : s.Step move t) : Timed t := by
  cases hstep with
  | direct r hplace | begun hplace | answered r hplace | clear hplace | asked hplace | timedOut hplace =>
    exact h.go rfl rfl fun harmed => by rw [hplace] at harmed; cases harmed
  | arm hplace =>
    refine ⟨fun _ _ => .inr rfl, fun hset => ?_, fun x hx hstage => ?_⟩
    · exact absurd ((h.clear (by rw [hplace]; rfl)).symm.trans hset) nofun
    · obtain ⟨-, heq⟩ := Option.ite_none_left_eq_some.mp hx
      obtain rfl := Option.some.inj heq
      cases hstage
  | registered | refused | yield | resume => exact h.go rfl rfl fun _ => rfl
  | resumed _ hcancel => exact (h.cancelTimer hcancel).1
  | skipped _ hcancel => exact (h.cancelTimer hcancel).1
  | settle | ready | closed | shut | tick => exact h.go rfl rfl id
  | collect hx hstage =>
    refine h.setStage hx (by rw [hstage]; nofun) (fun hset => ?_) nofun
    exact absurd ((h.unset hx (by rw [hstage]; nofun) (by rw [hstage]; nofun)).symm.trans hset) nofun
  | callback hx hstage => exact h.callback hx hstage
  | woken hx hstage =>
    have hdone : Timed (s.setStage _ .done) := h.setStage hx (by rw [hstage]; nofun) (fun _ => rfl) nofun
    exact hdone.go rfl rfl id
  | done _ hx hstage => exact h.setStage hx (by rw [hstage]; nofun) (fun _ => rfl) nofun

/-- A new call has no timer. -/
theorem timed_new (e : Entry) (now : UInt64) : Timed (.new e now) := ⟨nofun, nofun, nofun⟩

end Timed

/-! ### What the call returns -/

/-- Something has ended the wait: the peer, a `close`, or the callback of the timer. -/
def Call.Woken (s : Call) : Prop := s.peer.isSome ∨ s.closed = true ∨ s.cancelled = true

/-- **What an answer of the call means.**  0 is an established connection, unless the registration failed; an error of
the socket is what the peer decided; `ETIMEDOUT` does not come back. -/
def Outcome.Means (ls : List Move) (s : Call) : Outcome → Prop
  | .result r => .connect r ∈ ls
  | .badFd => ∀ r, .connect r ∉ ls
  | .timedOut => False
  | .noSocket => s.closed = true
  | .connected => s.peer = some 0 ∨ .addEvent false ∈ ls
  | .failed e => e ≠ 0 ∧ s.peer = some e

/-- What is known of a call at its place. -/
def Place.Means (ls : List Move) (s : Call) : Place → Prop
  | .resumed => s.Woken
  | .refused => .addEvent false ∈ ls
  | .checking => s.peer.isSome ∨ s.closed = true
  | .asking => s.peer.isSome ∨ s.closed = true ∨ .addEvent false ∈ ls
  | .returned o => o.Means ls s
  | _ => True

/-- What no step takes back. -/
structure Call.Later (s t : Call) : Prop where
  peer : ∀ e, s.peer = some e → t.peer = some e
  closed : s.closed = true → t.closed = true
  set : s.cancelled = true → t.cancelled = true

section Answers

variable {s t : Call} {move : Move} {ls : List Move}

/-- An answer of the peer stays. -/
theorem Call.Later.isSome (h : s.Later t) (hpeer : s.peer.isSome) : t.peer.isSome := by
  obtain ⟨e, he⟩ := Option.isSome_iff_exists.mp hpeer
  rw [h.peer e he]
  rfl

/-- A fiber that was woken stays so. -/
theorem Call.Later.woken (h : s.Later t) (hw : s.Woken) : t.Woken :=
  hw.imp h.isSome (.imp h.closed h.set)

/-- `cancel` comes later. -/
theorem Call.later_cancelTimer {place : Place} (h : s.cancelTimer place = some t) : s.Later t := by
  rcases cancelTimer_cases h with ⟨rfl, -⟩ | ⟨x, -, -, rfl⟩ <;> exact ⟨fun _ => id, id, id⟩

/-- So does the callback. -/
theorem Call.later_callback (s : Call) (x : WaitTimer) : s.Later (s.callback x) := by
  refine ⟨fun e he => by simpa using he, fun hc => by simpa using hc, fun hset => ?_⟩
  unfold Call.callback
  split
  · exact hset
  · rw [if_pos hset]
    exact hset

/-- What is known at a place stays known. -/
theorem Place.Means.later {place : Place} (h : place.Means ls s) (hl : s.Later t)
    (hmove : ∀ r, move ≠ .connect r) : place.Means (ls ++ [move]) t := by
  cases place with
  | resumed => exact hl.woken h
  | checking => exact h.imp hl.isSome hl.closed
  | refused => exact List.mem_append_left _ h
  | asking => exact h.imp hl.isSome (.imp hl.closed (List.mem_append_left _))
  | returned o =>
    cases o with
    | result r => exact List.mem_append_left _ h
    | badFd =>
      intro r hr
      rcases List.mem_append.mp hr with hr | hr
      · exact h r hr
      · exact hmove r (List.mem_singleton.mp hr).symm
    | timedOut => exact h
    | noSocket => exact hl.closed h
    | connected => exact h.imp (hl.peer 0) (List.mem_append_left _)
    | failed e => exact ⟨h.1, hl.peer e h.2⟩
  | _ => trivial

/-- What the socket answers, of a call that was woken or not registered. -/
theorem means_ask (h : s.peer.isSome ∨ s.closed = true ∨ .addEvent false ∈ ls) : s.ask.Means ls s := by
  unfold Call.ask
  split
  · rename_i hclosed
    exact hclosed
  · rename_i hopen
    split
    · rename_i hpeer
      rw [hpeer] at h
      exact .inr ((h.resolve_left nofun).resolve_left hopen)
    · rename_i hpeer
      exact .inl hpeer
    · rename_i e hne hpeer
      exact ⟨hne, hpeer⟩

/-- **What is known along a run**: of the registration, the timer, the fiber in the queue and the place. -/
structure Known (ls : List Move) (s : Call) : Prop where
  held : s.Held
  timed : Timed s
  queued : 0 < s.queued → s.Woken
  place : s.place.Means ls s

/-- A step that is not the call's own. -/
theorem Known.others (h : Known ls s) (hstep : s.Step move t) (hplace : t.place = s.place) (hl : s.Later t)
    (hmove : ∀ r, move ≠ .connect r) (hq : 0 < t.queued → 0 < s.queued ∨ t.Woken) : Known (ls ++ [move]) t := by
  refine ⟨h.held.next hstep, h.timed.next hstep, fun hpos => ?_, hplace ▸ h.place.later hl hmove⟩
  rcases hq hpos with hold | hw
  · exact hl.woken (h.queued hold)
  · exact hw

/-- A step of the call itself to a place outside its wait, where nothing is in the queue. -/
theorem Known.own (h : Known ls s) (hstep : s.Step move t) (hwaits : t.place.waits = false)
    (hplace : t.place.Means (ls ++ [move]) t) : Known (ls ++ [move]) t := by
  have hheld := h.held.next hstep
  refine ⟨hheld, h.timed.next hstep, fun hpos => ?_, hplace⟩
  rw [(hheld.idle hwaits).2] at hpos
  exact absurd hpos (Nat.lt_irrefl 0)

/-- **Every step keeps what is known.** -/
theorem Known.next (h : Known ls s) (hstep : s.Step move t) : Known (ls ++ [move]) t := by
  have hplace := h.place
  have hnew : move ∈ ls ++ [move] := List.mem_append_right _ (List.mem_singleton_self _)
  cases hstep with
  | direct r hp => exact h.own (.direct r hp) rfl hnew
  | answered r hp hr => exact h.own (.answered r hp hr) rfl hnew
  | begun hp => exact h.own (.begun hp) rfl trivial
  | arm hp => exact h.own (.arm hp) rfl trivial
  | registered hp => exact ⟨h.held.next (.registered hp), h.timed.next (.registered hp), h.queued, trivial⟩
  | yield hp => exact ⟨h.held.next (.yield hp), h.timed.next (.yield hp), h.queued, trivial⟩
  | refused hp => exact h.own (.refused hp) rfl hnew
  | resume hp hqueued => exact h.own (.resume hp hqueued) rfl (h.queued hqueued)
  | resumed hp hcancel =>
    have hw : t.Woken := (Call.later_cancelTimer hcancel).woken (by rwa [hp] at hplace)
    have hchecking : t.place = .checking := cancelTimer_place hcancel
    refine h.own (.resumed hp hcancel) (by rw [hchecking]; rfl) ?_
    rw [hchecking]
    -- the callback has not ended this wait: its timer would have been collected
    refine hw.imp_right (Or.resolve_right · fun hset => ?_)
    exact absurd ((h.timed.cancelTimer hcancel).2.symm.trans hset) nofun
  | skipped hp hcancel =>
    have hasking : t.place = .asking := cancelTimer_place hcancel
    refine h.own (.skipped hp hcancel) (by rw [hasking]; rfl) ?_
    rw [hp] at hplace
    rw [hasking]
    exact .inr (.inr (List.mem_append_left _ hplace))
  | timedOut hp hset => exact absurd ((h.timed.clear (by rw [hp]; rfl)).symm.trans hset) nofun
  | clear hp hclear =>
    rw [hp] at hplace
    exact h.own (.clear hp hclear) rfl (hplace.imp_right .inl)
  | asked hp =>
    rw [hp] at hplace
    exact h.own (.asked hp) rfl (means_ask (hplace.imp_right (.imp_right (List.mem_append_left _))))
  | settle e hopen =>
    refine h.others (.settle e hopen) rfl ⟨fun e' he' => ?_, id, id⟩ nofun .inl
    exact absurd (he'.symm.trans hopen) nofun
  | ready hreg hpeer hopen =>
    exact h.others (.ready hreg hpeer hopen) rfl ⟨fun _ => id, id, id⟩ nofun fun _ => .inr (.inl hpeer)
  | closed hreg hopen =>
    exact h.others (.closed hreg hopen) rfl ⟨fun _ => id, fun _ => rfl, id⟩ nofun fun _ => .inr (.inr (.inl rfl))
  | shut ok hopen hquiet => exact h.others (.shut ok hopen hquiet) rfl ⟨fun _ => id, fun _ => rfl, id⟩ nofun .inl
  | collect hx hstage hdue => exact h.others (.collect hx hstage hdue) rfl ⟨fun _ => id, id, id⟩ nofun .inl
  | callback hx hstage =>
    exact h.others (.callback hx hstage) (by simp) (Call.later_callback s _) nofun (by simpa using .inl)
  | woken hx hstage hreg =>
    have hset : s.cancelled = true := h.timed.set _ hx hstage
    exact h.others (.woken hx hstage hreg) rfl ⟨fun _ => id, id, id⟩ nofun fun _ => .inr (.inr (.inr hset))
  | done ok hx hstage hquiet => exact h.others (.done ok hx hstage hquiet) rfl ⟨fun _ => id, id, id⟩ nofun .inl
  | tick now hle => exact h.others (.tick now hle) rfl ⟨fun _ => id, id, id⟩ nofun .inl

/-- Of a new call nothing is known. -/
theorem known_new (e : Entry) (now : UInt64) : Known [] (.new e now) := by
  refine ⟨held_new e now, timed_new e now, nofun, ?_⟩
  cases e with
  | badFd => exact fun r hr => absurd hr List.not_mem_nil
  | _ => trivial

/-- What is known in every run. -/
theorem known_run {e : Entry} {now : UInt64} (h : (system e now).Run anyStep ls s) : Known ls s :=
  h.invariant (known_new e now) fun _ _ _ _ ih _ hn => ih.next (Call.step_of_next hn)

end Answers

/-- The state after a run, if it is one. -/
def Call.after (e : Entry) (now : UInt64) (ls : List Move) : Option Call :=
  (system e now).exec (fun _ _ => true) (.new e now) ls

/-- A computed run is a run. -/
theorem run_of_after {e : Entry} {now : UInt64} {ls : List Move} {s : Call} (h : Call.after e now ls = some s) :
    (system e now).Run anyStep ls s :=
  System.run_of_exec (fun _ _ _ => trivial) h

/-- A run in which the peer refuses the connection in time. -/
def refusedRun : List Move :=
  [.connect .EINPROGRESS, .arm, .addEvent true, .yield, .tick 300, .settle 111, .ready, .resume, .cancelTimer,
    .tick 9000,
    .check, .getsockopt]

/-- **0 for a connection in progress**: a call whose registration fails asks the socket at once, which has no error
yet. -/
theorem connected_in_progress :
    ∃ s, (system (.wait 5000) 0).Run anyStep
        [.connect .EINPROGRESS, .arm, .addEvent false, .cancelTimer, .getsockopt] s ∧
      s.place = .returned .connected ∧ s.peer = none :=
  ⟨_, run_of_after rfl, rfl, rfl⟩

end Connect
end Wuchat
