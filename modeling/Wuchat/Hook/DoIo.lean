/-
# Waiting inside `do_io`

`hook.cpp`: a hooked call tries its system call; when that would block, it arms a condition
timer with the timeout of the descriptor, registers the current fiber with `addEvent` and
yields.  Whoever ends the registration schedules the fiber.  The fiber then cancels the
timer, looks at the flag of its `timer_info`, and tries again.  The callback of the timer
sets the flag and calls `cancelEvent`.

One call is followed here, with its waits and their timers.  All waits of a call share one
`timer_info`.  A timer is collected by `listExpiredCb` when its time has come, and its
callback runs later, on any thread; its two actions are separate steps.  The clock moves
forward.  A readiness event, or a `close` of the descriptor by another fiber, ends the
registration (`ready`).

The call cancels the timer of a wait after the wait.  If that timer was collected before,
`cancel()` erases the end iterator, which is undefined (`Timers.cancel_after_fired`): that
step has no next state.

The fiber is scheduled once for every wait (`scheduled_once`).  All goes as it should exactly in the
runs in which the timer of a wait is still in `m_timers` when the call cancels it (`waits_in_time`).  A wait
that lasts until its timer is collected ends in the undefined `cancel()` (`expired_wait`), so the flag of
the `timer_info` never leads to `ETIMEDOUT` (`not_timedOut`), and no callback of a wait is left when the
call has gone on from it.
-/

import Mathlib.Data.List.Basic
import Wuchat.Hook.FdManager

namespace Wuchat
namespace DoIo

open Foundation
open Fds (FdContext)

/-- The answer of a system call: its result, or the error. -/
inductive SysResult
  | ok (n : Nat)
  | EINTR
  | EAGAIN
  | error (errno : Nat)
  deriving DecidableEq, Repr

/-- How `do_io` begins: with the bare system call, with `EBADF`, or with the loop and a timeout. -/
inductive Entry
  | direct
  | badFd
  | loop (timeout : UInt64)
  deriving DecidableEq, Repr

/-- The tests at the start of `do_io`. -/
def entry (hookEnable : Bool) (ctx : Option FdContext) (timeoutSo : Int) : Entry :=
  if !hookEnable then .direct
  else match ctx with
    | none => .direct
    | some ctx =>
      if ctx.isClosed then .badFd
      else if !ctx.isSocket || ctx.isUserNonBlock then .direct
      else .loop (ctx.getTimeout timeoutSo)

/-- What `do_io` returns: the answer of the system call, or -1 with `EBADF`, with the flag of the
`timer_info`, which is `ETIMEDOUT`, or without an event. -/
inductive Outcome
  | result (r : SysResult)
  | badFd
  | timedOut
  | noEvent
  deriving DecidableEq, Repr

/-- Where the call is. -/
inductive Place
  | direct
  | calling
  | arming
  | registering
  | yielding
  | suspended
  | resumed
  | checking
  | failed
  | returned (o : Outcome)
  deriving DecidableEq, Repr

/-- Where the timer of a wait is: in `m_timers`, collected, its callback between its two actions, at
its end, or cancelled. -/
inductive TimerStage
  | pending
  | collected
  | flagged
  | done
  | cancelled
  deriving DecidableEq, Repr

/-- The timer of a wait: when it was armed, when it is due, and where it is. -/
structure WaitTimer where
  armed : UInt64
  next : UInt64
  stage : TimerStage
  deriving DecidableEq, Repr

/-- What happened to the wait with a number. -/
inductive Event
  | registered (wait : Nat)
  | scheduled (wait : Nat)
  | resumed (wait : Nat)
  deriving DecidableEq, Repr

/-- A call of `do_io`, with the flag of its `timer_info`, its waits, its registration, and how often
its fiber is in the queue of the scheduler. -/
structure Call where
  place : Place
  timeout : UInt64
  cancelled : Bool
  now : UInt64
  waits : List (Option WaitTimer)
  registered : Bool
  queued : Nat
  log : List Event

namespace Call

variable (s : Call)

/-- The start of a call. -/
def new (e : Entry) (now : UInt64) : Call where
  place := match e with
    | .direct => .direct
    | .badFd => .returned .badFd
    | .loop _ => .calling
  timeout := match e with
    | .loop timeout => timeout
    | _ => -1
  cancelled := false
  now := now
  waits := []
  registered := false
  queued := 0
  log := []

/-- The number of the current wait. -/
def wait : Nat := s.waits.length - 1

/-- The timer of a wait. -/
def timer (w : Nat) : Option WaitTimer := s.waits[w]?.join

/-- The timer of a wait comes to a stage. -/
def setStage (w : Nat) (t : WaitTimer) (stage : TimerStage) : Call :=
  { s with waits := s.waits.set w (some { t with stage }) }

/-- The registration ends and the fiber is scheduled. -/
def trigger : Call :=
  { s with registered := false, queued := s.queued + 1, log := s.log ++ [.scheduled s.wait] }

end Call

/-- The steps: those of the call, those of the timers and their callbacks, readiness, and the clock.
-/
inductive Move
  | sysCall (r : SysResult)
  | arm
  | addEvent (ok : Bool)
  | yield
  | resume
  | cancelTimer
  | check
  | ready
  | collect (w : Nat)
  | callback (w : Nat)
  | cancelEvent (w : Nat) (ok : Bool)
  | tick (now : UInt64)
  deriving DecidableEq, Repr

/-- The answer of the system call in the loop. -/
def Call.answer (s : Call) : SysResult → Call
  | .EINTR => s
  | .EAGAIN => { s with place := .arming }
  | r => { s with place := .returned (.result r) }

/-- `timer->cancel()`, if there is a timer.  `listExpiredCb` leaves `m_cb` of a timer that it collects, so that
`cancel()` does not find the timer and erases the end iterator. -/
def Call.cancelTimer (s : Call) (place : Place) : Option Call :=
  match s.timer s.wait with
  | none => some { s with place }
  | some t =>
    match t.stage with
    | .pending => some { s.setStage s.wait t .cancelled with place }
    | .cancelled => some { s with place }
    | _ => none

/-- The callback up to `cancelEvent`: it ends at once if the `timer_info` is gone or its flag set.
-/
def Call.callback (s : Call) (w : Nat) (t : WaitTimer) : Call :=
  match s.place with
  | .returned _ => s.setStage w t .done
  | _ => if s.cancelled then s.setStage w t .done else { s.setStage w t .flagged with cancelled := true }

/-- The state after a step. -/
def Call.next (s : Call) : Move → Option Call
  | .sysCall r =>
    match s.place with
    | .direct => some { s with place := .returned (.result r) }
    | .calling => some (s.answer r)
    | _ => none
  | .arm =>
    if s.place = .arming then
      some { s with
        place := .registering
        waits := s.waits ++ [if s.timeout = -1 then none
          else some ⟨s.now, s.now + s.timeout, .pending⟩] }
    else none
  | .addEvent ok =>
    -- a second registration fails the assertion of `addEvent`
    if s.place = .registering ∧ s.registered = false then
      some (if ok then { s with place := .yielding, registered := true, log := s.log ++ [.registered s.wait] }
        else { s with place := .failed })
    else none
  | .yield => if s.place = .yielding then some { s with place := .suspended } else none
  | .resume =>
    if s.place = .suspended ∧ 0 < s.queued then
      some { s with place := .resumed, queued := s.queued - 1, log := s.log ++ [.resumed s.wait] }
    else none
  | .cancelTimer =>
    match s.place with
    | .resumed => s.cancelTimer .checking
    | .failed => s.cancelTimer (.returned .noEvent)
    | _ => none
  | .check =>
    if s.place = .checking then
      some (if s.cancelled then { s with place := .returned .timedOut } else { s with place := .calling })
    else none
  | .ready => if s.registered then some s.trigger else none
  | .collect w =>
    match s.timer w with
    | some t => if t.stage = .pending ∧ t.next ≤ s.now then some (s.setStage w t .collected) else none
    | none => none
  | .callback w =>
    match s.timer w with
    | some t => if t.stage = .collected then some (s.callback w t) else none
    | none => none
  | .cancelEvent w ok =>
    match s.timer w with
    | some t =>
      if t.stage = .flagged then
        some (if s.registered ∧ ok = true then (s.setStage w t .done).trigger else s.setStage w t .done)
      else none
    | none => none
  | .tick now => if s.now ≤ now then some { s with now } else none

/-- What a step does, with what it needs: one constructor for each way a move goes on. -/
inductive Call.Step (s : Call) : Move → Call → Prop
  | direct (r : SysResult) (hplace : s.place = .direct) :
      Step s (.sysCall r) { s with place := .returned (.result r) }
  | interrupted (hplace : s.place = .calling) : Step s (.sysCall .EINTR) s
  | again (hplace : s.place = .calling) : Step s (.sysCall .EAGAIN) { s with place := .arming }
  | answered (r : SysResult) (hplace : s.place = .calling) (hintr : r ≠ .EINTR) (hagain : r ≠ .EAGAIN) :
      Step s (.sysCall r) { s with place := .returned (.result r) }
  | arm (hplace : s.place = .arming) :
      Step s .arm { s with
        place := .registering
        waits := s.waits ++ [if s.timeout = -1 then none
          else some ⟨s.now, s.now + s.timeout, .pending⟩] }
  | registered (hplace : s.place = .registering) (hreg : s.registered = false) :
      Step s (.addEvent true)
        { s with place := .yielding, registered := true, log := s.log ++ [.registered s.wait] }
  | refused (hplace : s.place = .registering) (hreg : s.registered = false) :
      Step s (.addEvent false) { s with place := .failed }
  | yield (hplace : s.place = .yielding) : Step s .yield { s with place := .suspended }
  | resume (hplace : s.place = .suspended) (hqueued : 0 < s.queued) :
      Step s .resume
        { s with place := .resumed, queued := s.queued - 1, log := s.log ++ [.resumed s.wait] }
  | resumed {t : Call} (hplace : s.place = .resumed) (hcancel : s.cancelTimer .checking = some t) :
      Step s .cancelTimer t
  | failed {t : Call} (hplace : s.place = .failed) (hcancel : s.cancelTimer (.returned .noEvent) = some t) :
      Step s .cancelTimer t
  | timedOut (hplace : s.place = .checking) (hset : s.cancelled = true) :
      Step s .check { s with place := .returned .timedOut }
  | retry (hplace : s.place = .checking) (hclear : s.cancelled ≠ true) :
      Step s .check { s with place := .calling }
  | ready (hreg : s.registered = true) : Step s .ready s.trigger
  | collect {w : Nat} {x : WaitTimer} (hx : s.timer w = some x) (hstage : x.stage = .pending)
      (hdue : x.next ≤ s.now) : Step s (.collect w) (s.setStage w x .collected)
  | callback {w : Nat} {x : WaitTimer} (hx : s.timer w = some x) (hstage : x.stage = .collected) :
      Step s (.callback w) (s.callback w x)
  | triggered {w : Nat} {x : WaitTimer} (hx : s.timer w = some x) (hstage : x.stage = .flagged)
      (hreg : s.registered = true) : Step s (.cancelEvent w true) (s.setStage w x .done).trigger
  | done {w : Nat} {x : WaitTimer} (ok : Bool) (hx : s.timer w = some x) (hstage : x.stage = .flagged)
      (hlate : ¬ (s.registered = true ∧ ok = true)) : Step s (.cancelEvent w ok) (s.setStage w x .done)
  | tick (now : UInt64) (hle : s.now ≤ now) : Step s (.tick now) { s with now }

/-- **Every step is one of these.** -/
theorem Call.step_of_next {s t : Call} {move : Move} (hn : s.next move = some t) : s.Step move t := by
  cases move with
  | sysCall r =>
    simp only [Call.next] at hn
    split at hn
    · obtain rfl := Option.some.inj hn
      exact .direct r ‹_›
    · obtain rfl := Option.some.inj hn
      cases r with
      | EINTR => exact .interrupted ‹_›
      | EAGAIN => exact .again ‹_›
      | ok n => exact .answered _ ‹_› nofun nofun
      | error e => exact .answered _ ‹_› nofun nofun
    · cases hn
  | arm =>
    obtain ⟨hplace, ⟨⟩⟩ := Option.ite_none_right_eq_some.mp hn
    exact .arm hplace
  | addEvent ok =>
    obtain ⟨hplace, heq⟩ := Option.ite_none_right_eq_some.mp hn
    obtain rfl := Option.some.inj heq
    cases ok with
    | true => exact .registered hplace.1 hplace.2
    | false => exact .refused hplace.1 hplace.2
  | yield =>
    obtain ⟨hplace, ⟨⟩⟩ := Option.ite_none_right_eq_some.mp hn
    exact .yield hplace
  | resume =>
    obtain ⟨hplace, ⟨⟩⟩ := Option.ite_none_right_eq_some.mp hn
    exact .resume hplace.1 hplace.2
  | cancelTimer =>
    simp only [Call.next] at hn
    split at hn
    · exact .resumed ‹_› hn
    · exact .failed ‹_› hn
    · cases hn
  | check =>
    obtain ⟨hplace, heq⟩ := Option.ite_none_right_eq_some.mp hn
    obtain rfl := Option.some.inj heq
    split
    · exact .timedOut hplace ‹_›
    · exact .retry hplace ‹_›
  | ready =>
    obtain ⟨hreg, ⟨⟩⟩ := Option.ite_none_right_eq_some.mp hn
    exact .ready hreg
  | collect w =>
    simp only [Call.next] at hn
    split at hn
    · obtain ⟨hdue, ⟨⟩⟩ := Option.ite_none_right_eq_some.mp hn
      exact .collect ‹_› hdue.1 hdue.2
    · cases hn
  | callback w =>
    simp only [Call.next] at hn
    split at hn
    · obtain ⟨hstage, ⟨⟩⟩ := Option.ite_none_right_eq_some.mp hn
      exact .callback ‹_› hstage
    · cases hn
  | cancelEvent w ok =>
    simp only [Call.next] at hn
    split at hn
    · obtain ⟨hstage, heq⟩ := Option.ite_none_right_eq_some.mp hn
      obtain rfl := Option.some.inj heq
      split
      · rename_i hreg
        obtain ⟨hreg, rfl⟩ := hreg
        exact .triggered ‹_› hstage hreg
      · exact .done ok ‹_› hstage ‹_›
    · cases hn
  | tick now =>
    obtain ⟨hle, ⟨⟩⟩ := Option.ite_none_right_eq_some.mp hn
    exact .tick now hle

/-- A call as a system. -/
def system (e : Entry) (now : UInt64) : System Call Move := ⟨.new e now, Call.next⟩

/-! ### The fiber is scheduled once for every wait -/

/-- Neither registered nor in the queue. -/
def Call.Idle (s : Call) : Prop := s.registered = false ∧ s.queued = 0

/-- Registered, or in the queue once. -/
def Call.Waiting (s : Call) : Prop :=
  (s.registered = true ∧ s.queued = 0) ∨ (s.registered = false ∧ s.queued = 1)

/-- What a place says of the registration. -/
def Call.PlaceOk (s : Call) : Prop :=
  match s.place with
  | .yielding | .suspended => s.Waiting
  | .registering => s.Idle ∧ s.waits ≠ [] ∧ s.log.count (.registered s.wait) = 0
  | _ => s.Idle

/-- **Once for every wait**: the fiber was scheduled as often as it was registered, but for the
registration that is still there; it was resumed as often as it was scheduled, but for what is in
the queue; and it was registered at most once. -/
structure Once (s : Call) : Prop where
  scheduled : ∀ w, s.log.count (.scheduled w) + (if s.registered = true ∧ w = s.wait then 1 else 0) =
    s.log.count (.registered w)
  resumed : ∀ w, s.log.count (.resumed w) + (if w = s.wait then s.queued else 0) =
    s.log.count (.scheduled w)
  registered : ∀ w, s.log.count (.registered w) ≤ 1
  fresh : ∀ w, s.waits.length ≤ w → s.log.count (.registered w) = 0
  place : s.PlaceOk

section

variable {s t : Call} {move : Move}

/-- How often an event occurs behind one more. -/
theorem count_snoc (log : List Event) (e x : Event) :
    (log ++ [e]).count x = log.count x + if e = x then 1 else 0 := by
  rw [List.count_append, List.count_singleton]
  simp only [beq_iff_eq]

/-- **What `cancel()` does**, where it is defined: the timer leaves `m_timers`, or it has left it by a `cancel()`
before, or there is none. -/
theorem cancelTimer_cases {place : Place} (h : s.cancelTimer place = some t) :
    (t = { s with place } ∧ ∀ x, s.timer s.wait = some x → x.stage = .cancelled) ∨
      ∃ x, s.timer s.wait = some x ∧ x.stage = .pending ∧ t = { s.setStage s.wait x .cancelled with place } := by
  unfold Call.cancelTimer at h
  split at h
  · rename_i hnone
    exact .inl ⟨(Option.some.inj h).symm, fun x hx => absurd (hnone.symm.trans hx) nofun⟩
  · rename_i x hx
    split at h
    · rename_i hstage
      exact .inr ⟨x, hx, hstage, (Option.some.inj h).symm⟩
    · rename_i hstage
      exact .inl ⟨(Option.some.inj h).symm, fun y hy => Option.some.inj (hx.symm.trans hy) ▸ hstage⟩
    · cases h

/-- A step that changes the place only, as far as the registration is concerned. -/
theorem Once.quiet (h : Once s) (hlog : t.log = s.log) (hreg : t.registered = s.registered)
    (hq : t.queued = s.queued) (hw : t.waits.length = s.waits.length) (hplace : t.PlaceOk) :
      Once t := by
  have hwait : t.wait = s.wait := congrArg (· - 1) hw
  obtain ⟨hsched, hres, hone, hfresh, -⟩ := h
  rw [← hlog, ← hreg, ← hwait] at hsched
  rw [← hlog, ← hq, ← hwait] at hres
  rw [← hlog] at hone hfresh
  rw [← hw] at hfresh
  exact ⟨hsched, hres, hone, hfresh, hplace⟩

/-- A place with the same registration, without a wait. -/
theorem Once.idle (h : Once s) : s.place ≠ .yielding → s.place ≠ .suspended → s.Idle := by
  intro hy hs
  have hplace := h.place
  unfold Call.PlaceOk at hplace
  split at hplace
  · exact absurd ‹_› hy
  · exact absurd ‹_› hs
  · exact hplace.1
  · exact hplace

/-- A step to a place outside a wait, from one where nothing is registered. -/
theorem Once.leave {place : Place} (h : Once s) (hidle : s.Idle) (hlog : t.log = s.log)
    (hreg : t.registered = s.registered) (hq : t.queued = s.queued)
    (hw : t.waits.length = s.waits.length)
    (hplace : t.place = place) (hout : place ≠ .yielding ∧ place ≠ .suspended ∧
      place ≠ .registering) : Once t := by
  refine h.quiet hlog hreg hq hw ?_
  have hidle' : t.Idle := ⟨hreg.trans hidle.1, hq.trans hidle.2⟩
  unfold Call.PlaceOk
  rw [hplace]
  split
  · exact absurd rfl hout.1
  · exact absurd rfl hout.2.1
  · exact absurd rfl hout.2.2
  · exact hidle'

/-- A step that leaves the place alone, and of the waits only their number. -/
theorem Once.stay (h : Once s) (hlog : t.log = s.log) (hreg : t.registered = s.registered)
    (hq : t.queued = s.queued) (hw : t.waits.length = s.waits.length)
    (hplace : t.place = s.place) : Once t := by
  refine h.quiet hlog hreg hq hw ?_
  have hwait : t.wait = s.wait := congrArg (· - 1) hw
  have hne : t.waits ≠ [] ↔ s.waits ≠ [] := by
    rw [← List.length_pos_iff, ← List.length_pos_iff, hw]
  have hok := h.place
  unfold Call.PlaceOk Call.Idle Call.Waiting at hok ⊢
  rw [hplace, hreg, hq, hlog, hwait, hne]
  exact hok

/-- A timer's stage changes nothing of the waits. -/
theorem Once.setStage (h : Once s) (w : Nat) (x : WaitTimer) (stage : TimerStage) :
    Once (s.setStage w x stage) :=
  h.stay rfl rfl rfl (List.length_set ..) rfl

/-- **The end of a registration schedules the fiber.** -/
theorem Once.trigger (h : Once s) (hreg : s.registered = true) : Once s.trigger := by
  have hwaiting : s.queued = 0 ∧ (s.place = .yielding ∨ s.place = .suspended) := by
    have hplace := h.place
    unfold Call.PlaceOk at hplace
    split at hplace
    · rename_i hp
      rcases hplace with hw | hw
      · exact ⟨hw.2, .inl hp⟩
      · cases hreg.symm.trans hw.1
    · rename_i hp
      rcases hplace with hw | hw
      · exact ⟨hw.2, .inr hp⟩
      · cases hreg.symm.trans hw.1
    · cases hreg.symm.trans hplace.1.1
    · cases hreg.symm.trans hplace.1
  have hlog : s.trigger.log = s.log ++ [.scheduled s.wait] := rfl
  refine ⟨fun w => ?_, fun w => ?_, fun w => ?_, fun w hw => ?_, ?_⟩
  · have hold := h.scheduled w
    rw [hreg] at hold
    simp only [hlog, count_snoc, Event.scheduled.injEq, reduceCtorEq, if_false, eq_comm (a := s.wait)]
    simpa [Call.trigger] using hold
  · have hold := h.resumed w
    simp only [hlog, count_snoc, Event.scheduled.injEq, reduceCtorEq, if_false, eq_comm (a := s.wait)]
    show _ + (if w = s.wait then s.queued + 1 else 0) = _
    split <;> simp_all
  · simpa [hlog, count_snoc] using h.registered w
  · simpa [hlog, count_snoc] using h.fresh w hw
  · unfold Call.PlaceOk
    have hw : s.trigger.Waiting := .inr ⟨rfl, congrArg (· + 1) hwaiting.1⟩
    rcases hwaiting.2 with hp | hp
    · rw [show s.trigger.place = .yielding from hp]
      exact hw
    · rw [show s.trigger.place = .suspended from hp]
      exact hw

/-- A new wait begins while nothing is registered. -/
theorem Once.arm (h : Once s) (hplace : s.place = .arming) (x : Option WaitTimer) :
    Once { s with place := .registering, waits := s.waits ++ [x] } := by
  have hidle : s.Idle := h.idle (by rw [hplace]; nofun) (by rw [hplace]; nofun)
  have hlen : (s.waits ++ [x]).length = s.waits.length + 1 := List.length_append
  refine ⟨fun w => ?_, fun w => ?_, h.registered, fun w hw => ?_, hidle,
    List.append_ne_nil_of_right_ne_nil _ nofun, ?_⟩
  · have hold := h.scheduled w
    rw [hidle.1] at hold
    simpa [hidle.1] using hold
  · have hold := h.resumed w
    simpa [hidle.2] using hold
  · have hw : (s.waits ++ [x]).length ≤ w := hw
    rw [hlen] at hw
    exact h.fresh w (Nat.le_of_succ_le hw)
  · refine h.fresh _ ?_
    show s.waits.length ≤ (s.waits ++ [x]).length - 1
    rw [hlen]
    exact Nat.le_refl _

/-- The fiber is registered. -/
theorem Once.addEvent (h : Once s) (hplace : s.place = .registering) :
    Once { s with place := .yielding, registered := true, log := s.log ++ [.registered s.wait] } := by
  have hok := h.place
  rw [Call.PlaceOk, hplace] at hok
  obtain ⟨hidle, hne, hnone⟩ := hok
  have hlt : s.wait < s.waits.length := Nat.sub_lt (List.length_pos_iff.2 hne) Nat.one_pos
  refine ⟨fun w => ?_, fun w => ?_, fun w => ?_, fun w hw => ?_, .inl ⟨rfl, hidle.2⟩⟩
  · have hold := h.scheduled w
    rw [hidle.1] at hold
    show _ + (if true = true ∧ w = s.wait then 1 else 0) = _
    simp only [count_snoc, Event.registered.injEq, reduceCtorEq, if_false, eq_comm (a := s.wait)]
    simpa using hold
  · show _ + (if w = s.wait then s.queued else 0) = _
    simpa [count_snoc] using h.resumed w
  · simp only [count_snoc, Event.registered.injEq]
    split
    · rename_i heq
      refine Nat.le_of_eq ?_
      rw [← heq, hnone]
    · exact h.registered w
  · have hne' : ¬ s.wait = w := fun heq => absurd (heq ▸ hlt) (Nat.not_lt.2 hw)
    simp only [count_snoc, Event.registered.injEq, if_neg hne']
    exact h.fresh w hw

/-- The fiber is resumed. -/
theorem Once.resume (h : Once s) (hplace : s.place = .suspended) (hq : 0 < s.queued) :
    Once { s with place := .resumed, queued := s.queued - 1, log := s.log ++ [.resumed s.wait] } := by
  have hok := h.place
  rw [Call.PlaceOk, hplace] at hok
  obtain ⟨hreg, hone⟩ : s.registered = false ∧ s.queued = 1 := by
    rcases hok with hw | hw
    · exact absurd hq (by rw [hw.2]; exact Nat.lt_irrefl 0)
    · exact hw
  refine ⟨fun w => ?_, fun w => ?_, fun w => ?_, fun w hw => ?_, hreg, by rw [hone]⟩
  · show _ + (if s.registered = true ∧ w = s.wait then 1 else 0) = _
    simpa [count_snoc] using h.scheduled w
  · have hold := h.resumed w
    rw [hone] at hold
    show _ + (if w = s.wait then s.queued - 1 else 0) = _
    simp only [count_snoc, Event.resumed.injEq, reduceCtorEq, if_false, eq_comm (a := s.wait), hone]
    simpa using hold
  · simpa [count_snoc] using h.registered w
  · simpa [count_snoc] using h.fresh w hw

/-- The call cancels its timer between its wait and what follows. -/
theorem Once.cancelTimer {place : Place} (h : Once s) (hcancel : s.cancelTimer place = some t)
    (hplace : s.place = .resumed ∨ s.place = .failed)
    (hout : place ≠ .yielding ∧ place ≠ .suspended ∧ place ≠ .registering) : Once t := by
  have hidle : s.Idle := by
    refine h.idle (fun hp => ?_) fun hp => ?_
    · rcases hplace with h' | h' <;> cases h'.symm.trans hp
    · rcases hplace with h' | h' <;> cases h'.symm.trans hp
  rcases cancelTimer_cases hcancel with ⟨rfl, -⟩ | ⟨x, -, -, rfl⟩
  · exact h.leave hidle rfl rfl rfl rfl rfl hout
  · exact h.leave hidle rfl rfl rfl (List.length_set ..) rfl hout

/-- The callback keeps that each wait is woken once. -/
theorem Once.callback {w : Nat} (h : Once s) (x : WaitTimer) : Once (s.callback w x) := by
  unfold Call.callback
  split
  · exact h.setStage w x .done
  · split
    · exact h.setStage w x .done
    · exact h.stay rfl rfl rfl (List.length_set ..) rfl

/-- **Every step keeps the fiber scheduled once for every wait.** -/
theorem Once.next (h : Once s) (hn : s.next move = some t) : Once t := by
  cases Call.step_of_next hn with
  | direct r hplace | again hplace | answered r hplace | timedOut hplace | retry hplace | refused hplace =>
    have hidle : s.Idle := h.idle (by rw [hplace]; nofun) (by rw [hplace]; nofun)
    exact h.leave hidle rfl rfl rfl rfl rfl ⟨nofun, nofun, nofun⟩
  | interrupted => exact h
  | arm hplace => exact h.arm hplace _
  | registered hplace => exact h.addEvent hplace
  | yield hplace =>
    have hok := h.place
    rw [Call.PlaceOk, hplace] at hok
    exact h.quiet rfl rfl rfl rfl hok
  | resume hplace hqueued => exact h.resume hplace hqueued
  | resumed hplace hcancel => exact h.cancelTimer hcancel (.inl hplace) ⟨nofun, nofun, nofun⟩
  | failed hplace hcancel => exact h.cancelTimer hcancel (.inr hplace) ⟨nofun, nofun, nofun⟩
  | ready hreg => exact h.trigger hreg
  | collect => exact h.setStage _ _ .collected
  | callback => exact h.callback _
  | triggered _ _ hreg => exact (h.setStage _ _ .done).trigger hreg
  | done => exact h.setStage _ _ .done
  | tick => exact h.stay rfl rfl rfl rfl rfl

/-- A new call has not waited. -/
theorem once_new (e : Entry) (now : UInt64) : Once (.new e now) := by
  refine ⟨fun w => rfl, fun w => (Nat.zero_add _).trans (ite_self 0),
    fun w => Nat.zero_le 1, fun w _ => rfl, ?_⟩
  cases e <;> exact ⟨rfl, rfl⟩

/-! ### Timers that are cancelled in time -/

/-- The place is in a wait whose timer was armed and is not cancelled yet. -/
def Place.armed : Place → Bool
  | .registering | .yielding | .suspended | .resumed | .failed => true
  | _ => false

/-- **The timers of a call.**  Those of earlier waits are cancelled, and the flag is set only by the callback of the
current wait's timer, before the call cancels it. -/
structure Ordered (s : Call) : Prop where
  timers : ∀ w t, s.timer w = some t → t.stage = .cancelled ∨ (w = s.wait ∧ s.place.armed = true)
  flag : s.cancelled = true → s.place.armed = true ∧
    ∃ t, s.timer s.wait = some t ∧ (t.stage = .flagged ∨ t.stage = .done)
  out : s.place ≠ .returned .timedOut

/-- The timers behind a change of one's stage. -/
theorem timer_setStage {w w' : Nat} {x : WaitTimer} {stage : TimerStage} (hx : s.timer w = some x) :
    (s.setStage w x stage).timer w' = if w' = w then some { x with stage } else s.timer w' := by
  have hlt : w < s.waits.length := by
    rcases Nat.lt_or_ge w s.waits.length with hlt | hge
    · exact hlt
    · rw [Call.timer, List.getElem?_eq_none hge] at hx
      cases hx
  show (s.waits.set w _)[w']?.join = _
  split
  · rename_i heq
    rw [heq, List.getElem?_set_self hlt, Option.join_some]
  · rename_i hne
    rw [List.getElem?_set_ne (Ne.symm hne)]
    rfl

/-- The current wait is left. -/
theorem wait_setStage {w : Nat} {x : WaitTimer} {stage : TimerStage} :
    (s.setStage w x stage).wait = s.wait :=
  congrArg (· - 1) (List.length_set ..)

/-- A step that leaves the timers and the flag alone, and a wait only for another place of it. -/
theorem Ordered.go (h : Ordered s) (hw : t.waits = s.waits) (hc : t.cancelled = s.cancelled)
    (hplace : s.place.armed = true → t.place.armed = true) (hout : t.place ≠ .returned .timedOut) : Ordered t := by
  have hwait : t.wait = s.wait := by rw [Call.wait, hw, Call.wait]
  have htimer : ∀ w, t.timer w = s.timer w := fun w => by rw [Call.timer, hw, Call.timer]
  refine ⟨fun w x hx => ?_, fun hset => ?_, hout⟩
  · rw [hwait]
    exact (h.timers w x (htimer w ▸ hx)).imp_right (And.imp_right hplace)
  · obtain ⟨harmed, x, hx, hstage⟩ := h.flag (hc ▸ hset)
    exact ⟨hplace harmed, x, by rw [hwait, htimer]; exact hx, hstage⟩

/-- Outside a wait the flag is clear. -/
theorem Ordered.clear (h : Ordered s) (hplace : s.place.armed = false) : s.cancelled ≠ true :=
  fun hset => absurd ((h.flag hset).1.symm.trans hplace) nofun

/-- A timer that is not cancelled is the one of the current wait. -/
theorem Ordered.current (h : Ordered s) {w : Nat} {x : WaitTimer} (hx : s.timer w = some x)
    (hstage : x.stage ≠ .cancelled) : w = s.wait ∧ s.place.armed = true :=
  (h.timers w x hx).resolve_left hstage

/-- A timer of the current wait comes to a later stage; the flag is set only from its callback on. -/
theorem Ordered.setStage (h : Ordered s) {w : Nat} {x : WaitTimer} {stage : TimerStage} (hx : s.timer w = some x)
    (hold : x.stage ≠ .cancelled) (hset : s.cancelled = true → stage = .flagged ∨ stage = .done) :
    Ordered (s.setStage w x stage) := by
  obtain ⟨rfl, harmed⟩ := h.current hx hold
  refine ⟨fun w y hy => ?_, fun hc => ⟨harmed, ?_⟩, h.out⟩
  · rw [timer_setStage hx] at hy
    rw [wait_setStage]
    split at hy
    · rename_i heq
      exact .inr ⟨heq, harmed⟩
    · exact h.timers w y hy
  · refine ⟨{ x with stage }, ?_, hset hc⟩
    rw [wait_setStage, timer_setStage hx, if_pos rfl]

/-- A new wait begins when the timers of the waits before are cancelled. -/
theorem Ordered.arm (h : Ordered s) (hplace : s.place = .arming) (x : Option WaitTimer) :
    Ordered { s with place := .registering, waits := s.waits ++ [x] } := by
  have hclear : s.cancelled ≠ true := h.clear (by rw [hplace]; rfl)
  refine ⟨fun w y hy => ?_, fun hc => absurd hc hclear, nofun⟩
  have hlen : ({ s with place := .registering, waits := s.waits ++ [x] } : Call).wait = s.waits.length := by
    rw [Call.wait, List.length_append, List.length_singleton, Nat.add_sub_cancel]
  rcases Nat.lt_trichotomy w s.waits.length with hlt | heq | hgt
  · rw [Call.timer, List.getElem?_append_left hlt] at hy
    refine .inl ((h.timers w y hy).resolve_right fun hc => ?_)
    rw [hplace] at hc
    cases hc.2
  · exact .inr ⟨heq.trans hlen.symm, rfl⟩
  · rw [Call.timer, List.getElem?_eq_none
      (by rw [List.length_append, List.length_singleton]; exact hgt)] at hy
    cases hy

/-- **A `cancel()` that is defined** leaves no timer to be collected, and finds the flag clear. -/
theorem Ordered.cancelTimer {place : Place} (h : Ordered s) (hcancel : s.cancelTimer place = some t)
    (hout : place ≠ .returned .timedOut) : Ordered t := by
  have hclear : (∀ x, s.timer s.wait = some x → x.stage = .pending ∨ x.stage = .cancelled) → s.cancelled ≠ true := by
    intro hgone hset
    obtain ⟨-, x, hx, hstage⟩ := h.flag hset
    rcases hgone x hx with hp | hp <;> rcases hstage with hf | hf <;> cases hp.symm.trans hf
  rcases cancelTimer_cases hcancel with ⟨rfl, hgone⟩ | ⟨x, hx, hstage, rfl⟩
  · refine ⟨fun w y hy => .inl ?_, fun hset => absurd hset (hclear fun y hy => .inr (hgone y hy)), hout⟩
    rcases h.timers w y hy with hold | ⟨rfl, -⟩
    · exact hold
    · exact hgone y hy
  · refine ⟨fun w y hy => .inl ?_, fun hset => absurd hset (hclear fun y hy => .inl ?_), hout⟩
    · have hy : (s.setStage s.wait x .cancelled).timer w = some y := hy
      rw [timer_setStage hx] at hy
      split at hy
      · exact (congrArg WaitTimer.stage (Option.some.inj hy)).symm
      · rename_i hne
        exact (h.timers w y hy).resolve_right fun hc => hne hc.1
    · exact Option.some.inj (hx.symm.trans hy) ▸ hstage

/-- The callback sets the flag in the wait of its timer. -/
theorem Ordered.callback (h : Ordered s) {w : Nat} {x : WaitTimer} (hx : s.timer w = some x)
    (hstage : x.stage = .collected) : Ordered (s.callback w x) := by
  have hold : x.stage ≠ .cancelled := by rw [hstage]; nofun
  unfold Call.callback
  split
  · exact h.setStage hx hold fun _ => .inr rfl
  · split
    · exact h.setStage hx hold fun _ => .inr rfl
    · have hflagged : Ordered (s.setStage w x .flagged) := h.setStage hx hold fun _ => .inl rfl
      obtain ⟨hw, harmed⟩ := h.current hx hold
      refine ⟨hflagged.timers, fun _ => ⟨harmed, { x with stage := .flagged }, ?_, .inl rfl⟩, h.out⟩
      show (s.setStage w x .flagged).timer (s.setStage w x .flagged).wait = _
      rw [wait_setStage, timer_setStage hx, if_pos hw.symm]

/-- **Every step keeps the timers in order.** -/
theorem Ordered.next (h : Ordered s) (hn : s.next move = some t) : Ordered t := by
  cases Call.step_of_next hn with
  | direct r hplace | again hplace | answered r hplace =>
    exact h.go rfl rfl (fun harmed => by rw [hplace] at harmed; cases harmed) nofun
  | interrupted => exact h
  | arm hplace => exact h.arm hplace _
  | registered | refused | yield | resume => exact h.go rfl rfl (fun _ => rfl) nofun
  | resumed _ hcancel => exact h.cancelTimer hcancel nofun
  | failed _ hcancel => exact h.cancelTimer hcancel nofun
  | timedOut hplace hset => exact absurd hset (h.clear (by rw [hplace]; rfl))
  | retry hplace => exact h.go rfl rfl (fun harmed => by rw [hplace] at harmed; cases harmed) nofun
  | ready => exact h.go rfl rfl id h.out
  | collect hx hstage =>
    refine h.setStage hx (by rw [hstage]; nofun) fun hset => ?_
    obtain ⟨rfl, -⟩ := h.current hx (by rw [hstage]; nofun)
    obtain ⟨-, y, hy, hlate⟩ := h.flag hset
    obtain rfl := Option.some.inj (hx.symm.trans hy)
    rcases hlate with hf | hf <;> cases hstage.symm.trans hf
  | callback hx hstage => exact h.callback hx hstage
  | triggered hx hstage =>
    have hdone : Ordered (s.setStage _ _ .done) := h.setStage hx (by rw [hstage]; nofun) fun _ => .inr rfl
    exact hdone.go rfl rfl id hdone.out
  | done _ hx hstage => exact h.setStage hx (by rw [hstage]; nofun) fun _ => .inr rfl
  | tick => exact h.go rfl rfl id h.out

/-- A new call has no event out of order. -/
theorem ordered_new (e : Entry) (now : UInt64) : Ordered (.new e now) := by
  refine ⟨fun w t ht => ?_, nofun, fun ho => ?_⟩
  · simp [Call.timer, Call.new] at ht
  · cases e <;> cases ho

end

/-! ### Whole calls -/

/-- **All is as it should be**: the fiber is scheduled once for every wait, a call that has returned -1 with `ETIMEDOUT`
has waited for its timeout, and where the call is to cancel its timer next, that is defined. -/
structure InOrder (s : Call) : Prop where
  once : Once s
  timedOut : s.place = .returned .timedOut →
    ∃ t, s.timer s.wait = some t ∧ t.armed.toNat + s.timeout.toNat ≤ s.now.toNat
  defined : s.place = .resumed ∨ s.place = .failed → (s.next .cancelTimer).isSome = true

/-- The timer of the wait is in `m_timers`, or there is none. -/
def Call.Cancellable (s : Call) : Prop :=
  ∀ t, s.timer s.wait = some t → t.stage = .pending ∨ t.stage = .cancelled

/-- The call does not come to cancel a timer that was collected: the fiber is not resumed from a wait whose timer was
collected, nor refused by `addEvent` then, and no timer is collected between that and its `cancel()`. -/
def Move.InTime (s : Call) : Move → Prop
  | .resume | .addEvent false => s.Cancellable
  | .collect _ => s.place ≠ .resumed ∧ s.place ≠ .failed
  | _ => True

section

variable {s t : Call} {move : Move} {e : Entry} {now : UInt64} {moves : List Move}

/-- Where the call cancels its timer, that is defined when the timer was not collected. -/
theorem isSome_next_cancelTimer (hplace : s.place = .resumed ∨ s.place = .failed) :
    (s.next .cancelTimer).isSome = true ↔ s.Cancellable := by
  have hcancel : ∀ place, (s.cancelTimer place).isSome = true ↔ s.Cancellable := by
    intro place
    unfold Call.cancelTimer Call.Cancellable
    cases hx : s.timer s.wait with
    | none => simp
    | some x => cases hstage : x.stage <;> simp [hstage]
  rcases hplace with hp | hp
  · simp only [Call.next, hp, hcancel]
  · simp only [Call.next, hp, hcancel]

/-- **The fiber is scheduled once for every wait.**  For every interleaving of the call, its timers
and their callbacks and readiness, in every state: for every wait the fiber was registered at most
once, was scheduled once for that but for a registration that is still there, and was resumed once
for that but for what is in the queue. -/
theorem scheduled_once (hrun : (system e now).Run anyStep moves s) : Once s :=
  hrun.invariant (I := fun _ s => Once s) (once_new e now) fun _ _ _ _ h _ hn => h.next hn

/-- The timers are in order in every run. -/
theorem ordered_run (hrun : (system e now).Run anyStep moves s) : Ordered s :=
  hrun.invariant (I := fun _ s => Ordered s) (ordered_new e now) fun _ _ _ _ h _ hn => h.next hn

/-- **`ETIMEDOUT` is not returned**: a call would cancel a collected timer on the way. -/
theorem not_timedOut (hrun : (system e now).Run anyStep moves s) : s.place ≠ .returned .timedOut :=
  (ordered_run hrun).out

/-- The callback leaves the caller where it is. -/
theorem callback_place (s : Call) (w : Nat) (x : WaitTimer) : (s.callback w x).place = s.place := by
  unfold Call.callback
  split
  · rfl
  · split <;> rfl

/-- **A call that is to cancel its timer can**, while the steps are in time. -/
theorem cancellable_next (hord : Ordered s) (h : s.place = .resumed ∨ s.place = .failed → s.Cancellable)
    (hok : move.InTime s) (hn : s.next move = some t) :
    t.place = .resumed ∨ t.place = .failed → t.Cancellable := by
  intro hplace
  have hsame : t.place = s.place → t.waits = s.waits → t.Cancellable := by
    intro hp hw
    have hold := h (hp ▸ hplace)
    rwa [Call.Cancellable, Call.wait, Call.timer, hw]
  -- a callback at work says that the timer of this wait was collected
  have hlate : ∀ {w : Nat} {x : WaitTimer}, s.timer w = some x → x.stage = .collected ∨ x.stage = .flagged →
      t.place = s.place → t.Cancellable := by
    intro w x hx hstage hp
    have hne : x.stage ≠ .cancelled := by rcases hstage with hs | hs <;> rw [hs] <;> nofun
    obtain ⟨rfl, -⟩ := hord.current hx hne
    rcases h (hp ▸ hplace) x hx with hs | hs <;> rcases hstage with hs' | hs' <;> cases hs.symm.trans hs'
  cases Call.step_of_next hn with
  | direct | again | answered | arm | registered | yield | timedOut | retry => rcases hplace with hp | hp <;> cases hp
  | interrupted | ready | tick => exact hsame rfl rfl
  | refused => exact hok
  | resume => exact hok
  | resumed _ hcancel =>
    rcases cancelTimer_cases hcancel with ⟨rfl, -⟩ | ⟨x, -, -, rfl⟩ <;> rcases hplace with hp | hp <;> cases hp
  | failed _ hcancel =>
    rcases cancelTimer_cases hcancel with ⟨rfl, -⟩ | ⟨x, -, -, rfl⟩ <;> rcases hplace with hp | hp <;> cases hp
  | collect => rcases hplace with hp | hp <;> [exact absurd hp hok.1; exact absurd hp hok.2]
  | callback hx hstage => exact hlate hx (.inl hstage) (callback_place _ _ _)
  | triggered hx hstage => exact hlate hx (.inr hstage) rfl
  | done _ hx hstage => exact hlate hx (.inr hstage) rfl

/-- **A step that is not in time** leaves the call before a `cancel()` that is not defined. -/
theorem not_defined_of_late (hord : Ordered s) (hlate : ¬ move.InTime s) (hn : s.next move = some t) : ¬ InOrder t := by
  intro hin
  have hcancel : t.place = .resumed ∨ t.place = .failed → t.Cancellable := fun hp =>
    (isSome_next_cancelTimer hp).mp (hin.defined hp)
  cases Call.step_of_next hn with
  | refused => exact hlate (hcancel (.inr rfl))
  | resume => exact hlate (hcancel (.inl rfl))
  | @collect w x hx hstage =>
    have hplace : s.place = .resumed ∨ s.place = .failed := by
      by_contra hp
      exact hlate ⟨fun hc => hp (.inl hc), fun hc => hp (.inr hc)⟩
    have hgone := hcancel hplace
    have hw : w = s.wait := (hord.current hx (by rw [hstage]; nofun)).1
    have hself : (s.setStage w x .collected).timer (s.setStage w x .collected).wait =
        some { x with stage := .collected } := by rw [wait_setStage, timer_setStage hx, if_pos hw.symm]
    rcases hgone _ hself with hs | hs <;> cases hs
  | _ => exact hlate trivial

/-- **A call goes as it should exactly when its timers are cancelled in time.**  For every run: in all states of it the
fiber is scheduled exactly once for every wait it yields in, -1 with `ETIMEDOUT` is returned only when the timeout
of the descriptor has passed since the last wait began, and `cancel()` is defined where the call comes to it,
if and only if no step leaves the call before the `cancel()` of a timer that was collected. -/
theorem waits_in_time (hrun : (system e now).Run anyStep moves s) :
    (∀ ls' s', ls' <+: moves → (system e now).Run anyStep ls' s' → InOrder s') ↔
      (system e now).Run (fun s move => move.InTime s) moves s := by
  refine System.Run.always_iff (fun ls s h => ?_) (fun ls s move t h hlate hn => ?_) hrun
  · have hany : (system e now).Run anyStep ls s := h.mono fun _ _ _ => trivial
    have hcancel : Ordered s ∧ (s.place = .resumed ∨ s.place = .failed → s.Cancellable) := by
      refine h.invariant (I := fun _ s => Ordered s ∧ (s.place = .resumed ∨ s.place = .failed → s.Cancellable))
        ⟨ordered_new e now, fun hp => ?_⟩ ?_
      · cases e <;> rcases hp with hp | hp <;> cases hp
      · rintro _ s move t ⟨hord, hcan⟩ hok hn
        exact ⟨hord.next hn, cancellable_next hord hcan hok hn⟩
    exact ⟨scheduled_once hany, fun ho => absurd ho (not_timedOut hany),
      fun hp => (isSome_next_cancelTimer hp).mpr (hcancel.2 hp)⟩
  · exact not_defined_of_late (ordered_run (h.mono fun _ _ _ => trivial)) hlate hn

end

/-- Whether the timer may be cancelled can be computed. -/
instance (s : Call) : Decidable s.Cancellable :=
  inferInstanceAs (Decidable (∀ t ∈ s.timer s.wait, t.stage = .pending ∨ t.stage = .cancelled))

/-- Whether a move comes in time can be computed. -/
instance (s : Call) : (move : Move) → Decidable (move.InTime s)
  | .resume | .addEvent false => inferInstanceAs (Decidable s.Cancellable)
  | .collect _ => inferInstanceAs (Decidable (s.place ≠ .resumed ∧ s.place ≠ .failed))
  | .sysCall _ | .arm | .addEvent true | .yield | .cancelTimer | .check | .ready | .callback _ | .cancelEvent _ _
  | .tick _ => .isTrue trivial

/-- The state after a run, if it is one. -/
def Call.after (e : Entry) (now : UInt64) (ls : List Move) : Option Call :=
  (system e now).exec (fun _ _ => true) (.new e now) ls

/-- A computed run is a run. -/
theorem run_of_after {e : Entry} {now : UInt64} {ls : List Move} {s : Call} (h : Call.after e now ls = some s) :
    (system e now).Run anyStep ls s :=
  System.run_of_exec (fun _ _ _ => trivial) h

/-- A call that waits twice with a timeout of 100: a readiness event ends each wait before its timer is due. -/
def twoWaits : List Move :=
  [.sysCall .EAGAIN, .arm, .addEvent true, .yield, .tick 1040, .ready, .resume, .cancelTimer, .check,
    .sysCall .EAGAIN, .arm, .addEvent true, .yield, .tick 1120, .ready, .resume, .cancelTimer, .check,
    .sysCall (.ok 5)]

/-- The call returns what it has read, and all went as it should. -/
theorem waits_in_time_twoWaits : ∃ s, (system (.loop 100) 1000).Run anyStep twoWaits s ∧
    s.place = .returned (.result (.ok 5)) ∧
    ∀ ls' s', ls' <+: twoWaits → (system (.loop 100) 1000).Run anyStep ls' s' → InOrder s' := by
  obtain ⟨s, hs⟩ : ∃ s, (system (.loop 100) 1000).exec (fun s move => decide (move.InTime s)) (.new (.loop 100) 1000)
      twoWaits = some s := ⟨_, rfl⟩
  have hrun : (system (.loop 100) 1000).Run (fun s move => move.InTime s) twoWaits s :=
    System.run_of_exec (fun _ _ => of_decide_eq_true) hs
  have hany : (system (.loop 100) 1000).Run anyStep twoWaits s := hrun.mono fun _ _ _ => trivial
  have hplace : s.place = .returned (.result (.ok 5)) := by
    obtain rfl := Option.some.inj hs
    rfl
  exact ⟨s, hany, hplace, (waits_in_time hany).mpr hrun⟩

/-- A call whose wait lasts until its timer is collected, whose callback ends it. -/
def expired : List Move :=
  [.sysCall .EAGAIN, .arm, .addEvent true, .yield, .tick 1100, .collect 0, .callback 0, .cancelEvent 0 true, .resume]

/-- **A wait that times out** ends in the `cancel()` of a collected timer: what the call does next is not defined. -/
theorem expired_wait : ∃ s, (system (.loop 100) 1000).Run anyStep expired s ∧
    s.place = .resumed ∧ s.cancelled = true ∧ s.next .cancelTimer = none ∧ ¬ InOrder s := by
  obtain ⟨s, hs⟩ : ∃ s, Call.after (.loop 100) 1000 expired = some s := ⟨_, rfl⟩
  have hend : s.place = .resumed ∧ s.cancelled = true ∧ s.next .cancelTimer = none := by
    obtain rfl := Option.some.inj hs
    exact ⟨rfl, rfl, rfl⟩
  refine ⟨s, run_of_after hs, hend.1, hend.2.1, hend.2.2, fun hin => ?_⟩
  have hdefined := hin.defined (.inl hend.1)
  rw [hend.2.2] at hdefined
  cases hdefined

end DoIo
end Wuchat
