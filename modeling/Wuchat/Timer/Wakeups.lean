/-
# Waking for timers

`timer.cpp`, `iomanager.cpp`: an idle worker asks `getNextTimer` how long it may sleep and then sleeps in
`epoll_wait`.  A timer that is put in front of all others is to cut the sleep short: `addTimer`
calls `onTimerInsertAtFront`, which is `tickle`, unless `m_tickled` says that this was done
before; `getNextTimer` clears `m_tickled`.

Any number of workers, of calls of `addTimer`, and of timers that are reset, refreshed, cancelled or
expire interleave; the insertion, the test of the idle count and the write into the pipe are
separate steps.  A sleep is remembered by the time at which the worker asked, the time from which it sleeps and the
timeout it got (`Io.turnTimeout`), so that the clock needs no step of its own.  A wait that a signal interrupts begins
again with the whole timeout.  The manager is not stopped: no worker leaves `idle` for good.

When all workers sleep and no call of `addTimer` is about to tickle, a byte is in the pipe or for every timer
some worker's sleep ends by the time of the timer, or later by no more than the time that it had slept when a signal
interrupted it last (`sleepers_in_time`).  This holds in every run in which no worker gets a negative timeout,
as it does for a first timer `2^31` milliseconds away, and no timer is refreshed to an earlier time, for which
the clock would have to go back.  That is all there is: while one worker executes a task, a sleeping one may
be late (`late_beside_a_busy_worker`), since the byte was for the other and `m_tickled` stays set until that
one is idle again. -/

import Wuchat.Foundation.Places
import Wuchat.Foundation.System
import Wuchat.Io.Idle

namespace Wuchat
namespace Wakeups

open Foundation

/-- `Timer`, without its callback. -/
structure Timer where
  m_next : UInt64
  m_ms : UInt64
  m_recurring : Bool
  deriving DecidableEq, Repr

/-- Where a worker is: looking for tasks or in one; in the idle fiber, before `getNextTimer`; behind it, in or before
`epoll_wait`, with the time at which it asked, the time from which the timeout counts and the timeout; or behind that,
with the pipe still to read or not. -/
inductive Place
  | busy
  | idling
  | asleep (asked since : UInt64) (timeout : Int32)
  | processing (drains : Bool)
  deriving DecidableEq, Repr

/-- A call of `tickle` by `addTimer`: before its test, or before its write. -/
inductive Tickle
  | testing
  | writing
  deriving DecidableEq, Repr

/-- `m_timers`, `m_tickled`, `m_idleThreadCount`, the number of bytes in the pipe, the calls that tickle, and the
workers. -/
structure IOManager where
  timers : List Timer
  tickled : Bool
  idle : Nat
  bytes : Nat
  calls : List Tickle
  workers : List Place
  deriving DecidableEq, Repr

namespace IOManager

/-- An `IOManager` with `n` workers. -/
def new (n : Nat) : IOManager := ⟨[], false, 0, 0, [], List.replicate n .busy⟩

variable (s : IOManager)

/-- A worker comes to a place. -/
def go (i : Nat) (place : Place) : IOManager := { s with workers := s.workers.set i place }

/-- `addTimer(val, lock)` on the timers `timers`: `front` says that the new one is first.  Of two timers for one time
the first is the one with the lower address, so either may be. -/
def addTimer (timers : List Timer) (t : Timer) (front : Bool) : Option IOManager :=
  if front then
    if ∀ u ∈ timers, t.m_next ≤ u.m_next then
      if s.tickled then some { s with timers := t :: timers }
      else some { s with timers := t :: timers, tickled := true, calls := s.calls ++ [.testing] }
    else none
  else if ∃ u ∈ timers, u.m_next ≤ t.m_next then some { s with timers := t :: timers }
  else none

/-- What `getNextTimer` answers at a time. -/
def nextDelay (now : UInt64) : UInt64 :=
  match (s.timers.map Timer.m_next).min? with
  | none => -1
  | some d => if d ≤ now then 0 else d - now

/-- The timeout that `epoll_wait` gets for it. -/
def nextTimeout (now : UInt64) : Int32 := Io.toInt (Io.turnTimeout (s.nextDelay now))

end IOManager

/-- The steps: those of the users of timers, of the calls that tickle, and of the workers. -/
inductive Move
  | addTimer (t : Timer) (front : Bool)
  | reset (k : Nat) (t : Timer) (front : Bool)
  | refresh (k : Nat) (next : UInt64)
  | cancel (k : Nat)
  | test (k : Nat)
  | write (k : Nat)
  | rest (i : Nat)
  | ask (i : Nat) (now : UInt64)
  | interrupt (i : Nat) (now : UInt64)
  | wake (i : Nat) (drains : Bool)
  | drain (i : Nat)
  | expire (i k : Nat) (now : UInt64)
  | yield (i : Nat)
  deriving DecidableEq, Repr

/-- The state after a step. -/
def IOManager.next (s : IOManager) : Move → Option IOManager
  | .addTimer t front => s.addTimer s.timers t front
  | .reset k t front =>
    if k < s.timers.length then s.addTimer (s.timers.eraseIdx k) t front else none
  | .refresh k next =>
    match s.timers[k]? with
    | some t => some { s with timers := { t with m_next := next } :: s.timers.eraseIdx k }
    | none => none
  | .cancel k => if k < s.timers.length then some { s with timers := s.timers.eraseIdx k } else none
  | .test k =>
    match s.calls[k]? with
    | some .testing => some { s with calls := if s.idle = 0 then s.calls.eraseIdx k else s.calls.set k .writing }
    | _ => none
  | .write k =>
    match s.calls[k]? with
    | some .writing => some { s with calls := s.calls.eraseIdx k, bytes := s.bytes + 1 }
    | _ => none
  | .rest i =>
    match s.workers[i]? with
    | some .busy => some ({ s with idle := s.idle + 1 }.go i .idling)
    | _ => none
  | .ask i now =>
    match s.workers[i]? with
    | some .idling => some ({ s with tickled := false }.go i (.asleep now now (s.nextTimeout now)))
    | _ => none
  | .interrupt i now =>
    -- `EINTR`: the next turn of the loop waits for the timeout of this one again
    match s.workers[i]? with
    | some (.asleep asked _ timeout) =>
      some (s.go i (.asleep asked now (Io.toInt (Io.turnTimeout (Io.ofInt timeout)))))
    | _ => none
  | .wake i drains =>
    match s.workers[i]? with
    | some (.asleep _ _ _) => some (s.go i (.processing drains))
    | _ => none
  | .drain i =>
    match s.workers[i]? with
    | some (.processing true) => some ({ s with bytes := 0 }.go i (.processing false))
    | _ => none
  | .expire i k now =>
    -- one timer of `listExpiredCb`; a recurring one goes back without a look at the front
    match s.workers[i]?, s.timers[k]? with
    | some (.processing _), some t =>
      if t.m_next ≤ now then
        some { s with timers := (if t.m_recurring then [{ t with m_next := now + t.m_ms }] else []) ++
          s.timers.eraseIdx k }
      else none
    | _, _ => none
  | .yield i =>
    match s.workers[i]? with
    | some (.processing false) => some ({ s with idle := s.idle - 1 }.go i .busy)
    | _ => none

/-- Timers, calls and workers as a system. -/
def system (n : Nat) : System IOManager Move := ⟨.new n, IOManager.next⟩

/-! ### What is on the way -/

/-- The worker will ask for the next timer before it sleeps. -/
def Place.awake : Place → Bool
  | .asleep _ _ _ => false
  | _ => true

/-- The worker is in the count of idle ones. -/
def Place.counted : Place → Bool
  | .busy => false
  | _ => true

/-- How long a worker had slept when its wait was interrupted last. -/
def Place.lost : Place → Int
  | .asleep asked since _ => since.toNat - asked.toNat
  | _ => 0

/-- The sleep ends by the time of a timer, or as much later as was lost by interruptions: it does not last at
all, or the timeout counted from where the wait began is over by then. -/
def Place.InTime (d : UInt64) : Place → Prop
  | .asleep asked since timeout =>
    timeout.toInt = 0 ∨
      0 ≤ timeout.toInt ∧ since.toNat + timeout.toInt ≤ d.toNat + (Place.asleep asked since timeout).lost
  | _ => False

/-- Something will make a worker ask again: a byte, a call that tickles, or a worker that is awake. -/
def IOManager.OnTheWay (s : IOManager) : Prop :=
  s.bytes ≠ 0 ∨ s.calls ≠ [] ∨ ∃ p ∈ s.workers, p.awake = true

/-- The timeout of a sleep is one that another turn of the loop does not change. -/
def Place.Settled : Place → Prop
  | .asleep _ _ timeout => 0 ≤ timeout.toInt ∧ timeout.toInt ≤ 3000
  | _ => True

/-- **No sleep is too long.**  Where nothing is on the way, `m_tickled` is clear and for every timer some worker wakes
up in time. -/
structure Covered (s : IOManager) : Prop where
  idle : s.idle = s.workers.countP Place.counted
  workers : s.workers ≠ []
  settled : ∀ p ∈ s.workers, p.Settled
  tickled : s.tickled = true → s.OnTheWay
  timers : s.OnTheWay ∨ ∀ t ∈ s.timers, ∃ p ∈ s.workers, p.InTime t.m_next

/-- The steps of the runs considered: no worker gets a negative timeout, and no timer is refreshed to an earlier
time. -/
def Answered (s : IOManager) : Move → Prop
  | .ask _ now => 0 ≤ (s.nextTimeout now).toInt
  | .refresh k next => ∀ t ∈ s.timers[k]?, t.m_next ≤ next
  | _ => True

/-- Whether the answer to a move is in time can be computed. -/
instance (s : IOManager) : (move : Move) → Decidable (Answered s move)
  | .ask _ now => inferInstanceAs (Decidable (0 ≤ (s.nextTimeout now).toInt))
  | .refresh k next => inferInstanceAs (Decidable (∀ t ∈ s.timers[k]?, t.m_next ≤ next))
  | .addTimer _ _ | .reset _ _ _ | .cancel _ | .test _ | .write _ | .rest _ | .interrupt _ _ | .wake _ _ | .drain _
  | .expire _ _ _ | .yield _ => .isTrue trivial

/-! ### The next timer -/

variable {s t : IOManager} {i : Nat} {p q : Place}

/-- A timeout that is not negative is over by the first timer, and so by every timer. -/
theorem inTime_nextTimeout {now : UInt64} (hpos : 0 ≤ (s.nextTimeout now).toInt) {u : Timer} (hu : u ∈ s.timers) :
    (Place.asleep now now (s.nextTimeout now)).InTime u.m_next := by
  have hmem : u.m_next ∈ s.timers.map Timer.m_next := List.mem_map_of_mem hu
  obtain ⟨d, hd⟩ : ∃ d, (s.timers.map Timer.m_next).min? = some d :=
    Option.isSome_iff_exists.mp (List.isSome_min?_of_mem hmem)
  have hle : d ≤ u.m_next := (List.min?_eq_some_iff.mp hd).2 _ hmem
  have hdelay : s.nextDelay now = if d ≤ now then 0 else d - now := by rw [IOManager.nextDelay, hd]
  have hleN := UInt64.le_iff_toNat_le.mp hle
  by_cases hnow : d ≤ now
  · left
    rw [if_pos hnow] at hdelay
    rw [IOManager.nextTimeout, hdelay, Io.toInt_turnTimeout]
    decide
  · right
    refine ⟨hpos, ?_⟩
    rw [if_neg hnow] at hdelay
    have hlt : now.toNat < d.toNat := UInt64.lt_iff_toNat_lt.mp (UInt64.not_le.mp hnow)
    have hsub : (d - now).toNat = d.toNat - now.toNat :=
        UInt64.toNat_sub_of_le _ _ (UInt64.le_of_lt (UInt64.not_le.mp hnow))
    have hbound : (s.nextTimeout now).toInt ≤ (d - now).toNat := by
      rw [IOManager.nextTimeout, hdelay, Io.toInt_turnTimeout]
      split
      · rename_i hall
        rw [hall]
        decide
      · have := Int.bmod_le (x := ((d - now).toNat : Int)) (m := 2 ^ 32) (by decide)
        have hmod := Int.bmod_def ((d - now).toNat : Int) (2 ^ 32)
        split at hmod <;> omega
    dsimp only [Place.lost]
    omega

/-- No timeout is above the limit. -/
theorem nextTimeout_le (s : IOManager) (now : UInt64) : (s.nextTimeout now).toInt ≤ 3000 := by
  rw [IOManager.nextTimeout, Io.toInt_turnTimeout]
  split
  · exact Int.le_refl _
  · exact Int.min_le_right _ _

/-! ### What a step keeps -/

/-- A worker that is awake is on its way. -/
theorem OnTheWay.of_awake (hp : p ∈ s.workers) (h : p.awake = true) : s.OnTheWay := .inr (.inr ⟨p, hp, h⟩)

/-- The count after a worker has moved. -/
theorem Covered.idle_go (h : Covered s) (hi : s.workers[i]? = some p) {idle : Nat}
    (hidle : idle + (if p.counted then 1 else 0) = s.idle + if q.counted then 1 else 0) :
    idle = (s.workers.set i q).countP Place.counted := by
  have hcount := countP_set_add Place.counted hi q
  rw [← h.idle] at hcount
  omega

/-- There are as many workers as before. -/
theorem set_ne_nil (h : s.workers ≠ []) : s.workers.set i q ≠ [] := by
  rwa [Ne, List.set_eq_nil_iff]

/-- **A worker comes to a place where it is awake.** -/
theorem Covered.awake (h : Covered s) (hi : s.workers[i]? = some p) (idle bytes : Nat)
    (hidle : idle + (if p.counted then 1 else 0) = s.idle + if q.counted then 1 else 0) (hq : q.awake = true) :
    Covered ({ s with idle, bytes }.go i q) := by
  have hsettled : q.Settled := by
    cases q with
    | asleep => cases hq
    | _ => exact trivial
  have hmem : q ∈ s.workers.set i q := List.mem_of_getElem? (List.getElem?_set_self (List.getElem?_eq_some_iff.1 hi).1)
  have hway : ({ s with idle, bytes }.go i q).OnTheWay := OnTheWay.of_awake hmem hq
  exact ⟨h.idle_go hi hidle, set_ne_nil h.workers, forall_mem_set h.settled hsettled, fun _ => hway, .inl hway⟩

/-- Other timers, for each of which there was one that was not later. -/
theorem Covered.retime (h : Covered s) {timers : List Timer}
    (hle : ∀ u ∈ timers, ∃ v ∈ s.timers, v.m_next ≤ u.m_next) : Covered { s with timers } := by
  refine ⟨h.idle, h.workers, h.settled, h.tickled, h.timers.imp_right fun hall u hu => ?_⟩
  obtain ⟨v, hv, hvu⟩ := hle u hu
  obtain ⟨p, hp, hin⟩ := hall v hv
  refine ⟨p, hp, ?_⟩
  have hvuN := UInt64.le_iff_toNat_le.mp hvu
  cases p with
  | asleep asked since timeout =>
    rcases hin with hzero | ⟨hpos, hsum⟩
    · exact .inl hzero
    · exact .inr ⟨hpos, by omega⟩
  | _ => exact hin.elim

/-- Any timers at all, while something is on the way. -/
theorem Covered.onTheWay (h : Covered s) (hway : s.OnTheWay) (timers : List Timer) : Covered { s with timers } :=
  ⟨h.idle, h.workers, h.settled, h.tickled, .inl hway⟩

/-- **A timer is added.** -/
theorem Covered.addTimer (h : Covered s) {timers : List Timer} {u : Timer} {front : Bool}
    (hsub : ∀ v ∈ timers, v ∈ s.timers) (hn : s.addTimer timers u front = some t) : Covered t := by
  unfold IOManager.addTimer at hn
  split at hn
  · split at hn
    · split at hn
      · rename_i htickled
        obtain rfl := Option.some.inj hn
        exact h.onTheWay (h.tickled htickled) _
      · obtain rfl := Option.some.inj hn
        have hway : ∀ t' : IOManager, t'.calls = s.calls ++ [.testing] → t'.OnTheWay := by
          intro t' ht'
          exact .inr (.inl (by rw [ht']; simp))
        exact ⟨h.idle, h.workers, h.settled, fun _ => hway _ rfl, .inl (hway _ rfl)⟩
    · cases hn
  · split at hn
    · rename_i hbehind
      obtain rfl := Option.some.inj hn
      obtain ⟨v, hv, hvu⟩ := hbehind
      refine h.retime fun w hw => ?_
      rcases List.mem_cons.mp hw with rfl | hw
      · exact ⟨v, hsub v hv, hvu⟩
      · exact ⟨w, hsub w hw, UInt64.le_refl _⟩
    · cases hn

/-- **A wait begins again**: what is added to its end was slept before. -/
theorem Covered.interrupt (h : Covered s) {asked since : UInt64} {timeout : Int32}
    (hi : s.workers[i]? = some (.asleep asked since timeout)) (now : UInt64) :
    Covered (s.go i (.asleep asked now timeout)) := by
  have hway : s.OnTheWay → (s.go i (.asleep asked now timeout)).OnTheWay :=
    Or.imp_right (Or.imp_right fun hex => exists_mem_set hi hex nofun)
  have hsettled : (Place.asleep asked since timeout).Settled := h.settled _ (List.mem_of_getElem? hi)
  refine ⟨h.idle_go hi rfl, set_ne_nil h.workers, forall_mem_set h.settled hsettled, fun ht => hway (h.tickled ht), ?_⟩
  refine h.timers.imp hway fun hall u hu => exists_mem_set hi (hall u hu) fun hin => ?_
  refine hin.imp_right fun ⟨hpos, hsum⟩ => ⟨hpos, ?_⟩
  simp only [Place.lost] at hsum ⊢
  omega

/-- **What a step keeps.** -/
theorem Covered.next {move : Move} (h : Covered s) (hok : Answered s move) (hn : s.next move = some t) : Covered t := by
  cases move with
  | addTimer u front => exact h.addTimer (fun _ hv => hv) hn
  | reset k u front =>
    simp only [IOManager.next] at hn
    split at hn
    · exact h.addTimer (fun v hv => (List.eraseIdx_sublist _ _).subset hv) hn
    · cases hn
  | refresh k next =>
    simp only [IOManager.next] at hn
    split at hn
    · rename_i u hk
      obtain rfl := Option.some.inj hn
      refine h.retime fun w hw => ?_
      rcases List.mem_cons.mp hw with rfl | hw
      · exact ⟨u, List.mem_of_getElem? hk, hok u hk⟩
      · exact ⟨w, (List.eraseIdx_sublist _ _).subset hw, UInt64.le_refl _⟩
    · cases hn
  | cancel k =>
    simp only [IOManager.next] at hn
    split at hn
    · obtain rfl := Option.some.inj hn
      exact h.retime fun w hw => ⟨w, (List.eraseIdx_sublist _ _).subset hw, UInt64.le_refl _⟩
    · cases hn
  | test k =>
    simp only [IOManager.next] at hn
    split at hn
    · rename_i hk
      obtain rfl := Option.some.inj hn
      have hway : ({ s with calls := if s.idle = 0 then s.calls.eraseIdx k else s.calls.set k .writing } :
          IOManager).OnTheWay := by
        by_cases hidle : s.idle = 0
        · -- no worker is in the count, so all of them are awake
          obtain ⟨p, rest, hworkers⟩ := List.exists_cons_of_ne_nil h.workers
          have hp : p ∈ s.workers := by rw [hworkers]; exact List.mem_cons_self
          have hzero := List.countP_eq_zero.mp (h.idle.symm.trans hidle) p hp
          refine OnTheWay.of_awake hp ?_
          cases p <;> first | rfl | exact absurd rfl hzero
        · refine .inr (.inl ?_)
          rw [if_neg hidle, Ne, List.set_eq_nil_iff]
          exact List.ne_nil_of_mem (List.mem_of_getElem? hk)
      exact ⟨h.idle, h.workers, h.settled, fun _ => hway, .inl hway⟩
    · cases hn
  | write k =>
    simp only [IOManager.next] at hn
    split at hn
    · obtain rfl := Option.some.inj hn
      have hway : ({ s with calls := s.calls.eraseIdx k, bytes := s.bytes + 1 } : IOManager).OnTheWay :=
        .inl (Nat.succ_ne_zero _)
      exact ⟨h.idle, h.workers, h.settled, fun _ => hway, .inl hway⟩
    · cases hn
  | rest i =>
    simp only [IOManager.next] at hn
    split at hn
    · rename_i hi
      obtain rfl := Option.some.inj hn
      exact h.awake hi _ _ rfl rfl
    · cases hn
  | ask i now =>
    simp only [IOManager.next] at hn
    split at hn
    · rename_i hi
      obtain rfl := Option.some.inj hn
      have hmem : Place.asleep now now (s.nextTimeout now) ∈ s.workers.set i (.asleep now now (s.nextTimeout now)) :=
        List.mem_of_getElem? (List.getElem?_set_self (List.getElem?_eq_some_iff.1 hi).1)
      exact ⟨h.idle_go hi rfl, set_ne_nil h.workers, forall_mem_set h.settled ⟨hok, nextTimeout_le s now⟩, nofun,
        .inr fun u hu => ⟨_, hmem, inTime_nextTimeout hok hu⟩⟩
    · cases hn
  | interrupt i now =>
    simp only [IOManager.next] at hn
    split at hn
    · rename_i asked since timeout hi
      obtain rfl := Option.some.inj hn
      obtain ⟨hpos, hle⟩ := h.settled _ (List.mem_of_getElem? hi)
      rw [Io.turnTimeout_ofInt hpos hle, Io.toInt_ofInt]
      exact h.interrupt hi now
    · cases hn
  | wake i drains =>
    simp only [IOManager.next] at hn
    split at hn
    · rename_i hi
      obtain rfl := Option.some.inj hn
      exact h.awake hi s.idle s.bytes rfl rfl
    · cases hn
  | drain i =>
    simp only [IOManager.next] at hn
    split at hn
    · rename_i hi
      obtain rfl := Option.some.inj hn
      exact h.awake hi s.idle 0 rfl rfl
    · cases hn
  | expire i k now =>
    simp only [IOManager.next] at hn
    split at hn
    · rename_i u hi hk
      split at hn
      · obtain rfl := Option.some.inj hn
        exact h.onTheWay (OnTheWay.of_awake (List.mem_of_getElem? hi) rfl) _
      · cases hn
    · cases hn
  | yield i =>
    simp only [IOManager.next] at hn
    split at hn
    · rename_i hi
      obtain rfl := Option.some.inj hn
      have hpos : 0 < s.workers.countP Place.counted := List.countP_pos_iff.2 ⟨_, List.mem_of_getElem? hi, rfl⟩
      have := h.idle
      exact h.awake hi _ _ (by show s.idle - 1 + 1 = s.idle + 0; omega) rfl
    · cases hn

/-- Without a timer there is nothing to wake up for. -/
theorem covered_new {n : Nat} (hn : n ≠ 0) : Covered (.new n) where
  idle := by
    refine (List.countP_eq_zero.mpr fun p hp => ?_).symm
    rw [(List.mem_replicate.mp hp).2]
    exact Bool.false_ne_true
  workers := by simpa [IOManager.new] using hn
  settled p hp := by
    rw [(List.mem_replicate.mp hp).2]
    exact trivial
  tickled := nofun
  timers := .inr nofun

/-- Only an interruption lets a wait begin later than the question. -/
theorem lost_next {move : Move} (hmove : ∀ i now, move ≠ .interrupt i now) (h : ∀ p ∈ s.workers, p.lost = 0)
    (hn : s.next move = some t) : ∀ p ∈ t.workers, p.lost = 0 := by
  have hadd : ∀ {timers : List Timer} {u : Timer} {front : Bool}, s.addTimer timers u front = some t →
      t.workers = s.workers := by
    intro timers u front ha
    unfold IOManager.addTimer at ha
    repeat' split at ha
    · cases ha
      rfl
    · cases ha
      rfl
    · cases ha
    · cases ha
      rfl
    · cases ha
  cases move with
  | addTimer u front =>
    rw [hadd hn]
    exact h
  | reset k u front =>
    simp only [IOManager.next] at hn
    split at hn
    · rw [hadd hn]
      exact h
    · cases hn
  | refresh k next | cancel k | test k | write k =>
    simp only [IOManager.next] at hn
    split at hn
    · cases hn
      exact h
    · cases hn
  | rest i | wake i drains | drain i | yield i =>
    simp only [IOManager.next] at hn
    split at hn
    · cases hn
      exact forall_mem_set h rfl
    · cases hn
  | ask i now =>
    simp only [IOManager.next] at hn
    split at hn
    · cases hn
      exact forall_mem_set h (Int.sub_self _)
    · cases hn
  | interrupt i now => exact absurd rfl (hmove i now)
  | expire i k now =>
    simp only [IOManager.next] at hn
    split at hn
    · split at hn
      · cases hn
        exact h
      · cases hn
    · cases hn

/-- **Sleeping workers wake up for timers.**  With any number of workers and in any order of steps, as long as no worker
gets a negative timeout and no timer is refreshed to an earlier time: when all workers sleep and no call of
`addTimer` is about to tickle, a byte is in the pipe, or for every timer the sleep of some worker ends in
time, but for what interruptions have added to it.  Without interruptions nothing is added. -/
theorem sleepers_in_time {n : Nat} (hn : n ≠ 0) {ls : List Move} {s : IOManager}
    (h : (system n).Run Answered ls s) (hall : ∀ p ∈ s.workers, p.awake = false) (hcalls : s.calls = []) :
    (s.bytes ≠ 0 ∨ ∀ t ∈ s.timers, ∃ p ∈ s.workers, p.InTime t.m_next) ∧
      ((∀ i now, Move.interrupt i now ∉ ls) → ∀ p ∈ s.workers, p.lost = 0) := by
  have hcovered : Covered s := h.invariant (I := fun _ s => Covered s) (covered_new hn)
    fun _ _ _ _ hI hok hnext => hI.next hok hnext
  have hlost : (∀ i now, Move.interrupt i now ∉ ls) → ∀ p ∈ s.workers, p.lost = 0 := by
    refine h.invariant (I := fun ls s => (∀ i now, Move.interrupt i now ∉ ls) → ∀ p ∈ s.workers, p.lost = 0) ?_ ?_
    · intro _ p hp
      rw [(List.mem_replicate.mp hp).2]
      rfl
    · intro ls s move t hI _ hnext hnone
      refine lost_next (fun i now hmove => hnone i now (List.mem_append_right _ ?_))
        (hI fun i now hmem => hnone i now (List.mem_append_left _ hmem)) hnext
      rw [hmove]
      exact List.mem_singleton_self _
  refine ⟨hcovered.timers.imp_left fun hway => ?_, hlost⟩
  rcases hway with hbytes | hc | ⟨p, hp, hawake⟩
  · exact hbytes
  · exact (hc hcalls).elim
  · rw [hall p hp] at hawake
    cases hawake

/-- A timer in a second, a sleep until then that is interrupted, an earlier timer, and the byte for it. -/
def earlierTimer : List Move :=
  [.addTimer ⟨1000, 1000, false⟩ true, .test 0, .rest 0, .ask 0 10, .interrupt 0 200,
    .addTimer ⟨500, 490, false⟩ true, .test 0, .write 0]

/-- The state after it: the worker would sleep until 1190. -/
def interruptedWorker : IOManager :=
  ⟨[⟨500, 490, false⟩, ⟨1000, 1000, false⟩], true, 1, 1, [], [.asleep 10 200 990]⟩

/-- The statement at a timer added before the others, with an interrupted wait. -/
theorem sleepers_in_time_earlierTimer :
    (interruptedWorker.bytes ≠ 0 ∨
        ∀ t ∈ interruptedWorker.timers, ∃ p ∈ interruptedWorker.workers, p.InTime t.m_next) ∧
      ((∀ i now, Move.interrupt i now ∉ earlierTimer) → ∀ p ∈ interruptedWorker.workers, p.lost = 0) :=
  sleepers_in_time (n := 1) (by decide)
    (System.run_of_exec (g := fun s move => decide (Answered s move)) (fun _ _ => of_decide_eq_true) (by decide))
    (by decide) rfl

/-- **A worker sleeps past a timer while another executes**: the byte woke the other, which then found a task, and the
second timer did not tickle since `m_tickled` was still set. -/
theorem late_beside_a_busy_worker :
    (system 2).exec (fun s move => decide (Answered s move)) (.new 2)
      [.addTimer ⟨3000, 3000, false⟩ true, .test 0, .rest 0, .ask 0 0, .rest 1, .ask 1 0,
        .addTimer ⟨500, 490, false⟩ true, .test 0, .write 0, .wake 0 true, .drain 0, .yield 0,
        .addTimer ⟨100, 80, false⟩ true] =
      some ⟨[⟨100, 80, false⟩, ⟨500, 490, false⟩, ⟨3000, 3000, false⟩], true, 1, 0, [], [.busy, .asleep 0 0 3000]⟩ := by
  decide

end Wakeups
end Wuchat
