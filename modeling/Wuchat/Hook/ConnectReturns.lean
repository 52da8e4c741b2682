/-
# How a `connect` with a timeout comes back

The timer of a call of `connect_with_timeout` is there so that the call returns whatever the peer does.  It does
the opposite.  A timer that was collected before the call came to cancel it leaves the call in front of a `cancel()`
that is not defined, whoever ends the wait; and a registration on a socket that another fiber has closed without
ending it has only that timer left.  Every other call can still return (`returns_iff`), and one that is in its wait does
so by readiness or by a `close`, never by its timeout.

The first kind of state is never left again.  From any other one the way to the return is built from its end, place by
place.
-/

import Wuchat.Hook.Connect

namespace Wuchat
namespace Connect

open Foundation
open DoIo (TimerStage WaitTimer)

/-- Some steps lead to the return of the call. -/
def Call.Returns (e : Entry) (now : UInt64) (s : Call) : Prop :=
  ∃ ms t o, (system e now).exec (fun _ _ => true) s ms = some t ∧ t.place = .returned o

/-- The timer of the wait was collected, whatever its callback has done since. -/
def Call.Late (s : Call) : Prop :=
  s.place.armed = true ∧ ∃ x, s.timer = some x ∧ x.stage ≠ .pending ∧ x.stage ≠ .cancelled

/-- The fiber is registered for a socket that another fiber has closed. -/
def Call.Orphaned (s : Call) : Prop := s.registered = true ∧ s.closed = true

section Returns

variable {s t : Call} {move : Move} {ls : List Move} {e : Entry} {now : UInt64}

/-! ### Ways to the return -/

/-- A call that has returned returns. -/
theorem Call.Returns.of_returned {o : Outcome} (h : s.place = .returned o) : s.Returns e now := ⟨[], s, o, rfl, h⟩

/-- A step on the way. -/
theorem Call.Returns.step (h : t.Returns e now) (move : Move) (hn : s.next move = some t) : s.Returns e now := by
  obtain ⟨ms, u, o, hms, hu⟩ := h
  exact ⟨move :: ms, u, o, (System.exec_cons rfl hn).trans hms, hu⟩

/-- A call that asks for the outcome returns. -/
theorem returns_asking (hplace : s.place = .asking) : s.Returns e now :=
  (Call.Returns.of_returned rfl).step .getsockopt (if_pos hplace)

/-- A call about to look at its timer returns. -/
theorem returns_checking (hplace : s.place = .checking) : s.Returns e now := by
  cases hset : s.cancelled with
  | true =>
    refine (Call.Returns.of_returned (o := .timedOut) ?_).step .check (if_pos hplace)
    simp [hset]
  | false =>
    refine (returns_asking ?_).step .check (if_pos hplace)
    simp [hset]

/-- A timer that was not collected can be cancelled. -/
theorem exists_cancelTimer (harmed : s.place.armed = true) (hlate : ¬ s.Late) (place : Place) :
    ∃ t, s.cancelTimer place = some t := by
  unfold Call.cancelTimer
  cases hx : s.timer with
  | none => exact ⟨_, rfl⟩
  | some x =>
    cases hstage : x.stage with
    | pending => simp [hstage]
    | cancelled => simp [hstage]
    | collected => exact absurd ⟨harmed, x, hx, by rw [hstage]; nofun, by rw [hstage]; nofun⟩ hlate
    | flagged => exact absurd ⟨harmed, x, hx, by rw [hstage]; nofun, by rw [hstage]; nofun⟩ hlate
    | done => exact absurd ⟨harmed, x, hx, by rw [hstage]; nofun, by rw [hstage]; nofun⟩ hlate

/-- A resumed call returns unless it is late. -/
theorem returns_resumed (hplace : s.place = .resumed) (hlate : ¬ s.Late) : s.Returns e now := by
  obtain ⟨t, ht⟩ := exists_cancelTimer (by rw [hplace]; rfl) hlate .checking
  exact (returns_checking (cancelTimer_place ht)).step .cancelTimer (by simpa only [Call.next, hplace] using ht)

/-- A call whose registration was refused returns unless it is late. -/
theorem returns_refused (hplace : s.place = .refused) (hlate : ¬ s.Late) : s.Returns e now := by
  obtain ⟨t, ht⟩ := exists_cancelTimer (by rw [hplace]; rfl) hlate .asking
  exact (returns_asking (cancelTimer_place ht)).step .cancelTimer (by simpa only [Call.next, hplace] using ht)

/-- A step of the wait that leaves the timer alone. -/
theorem not_late_of_timer (hlate : ¬ s.Late) (harmed : s.place.armed = true) (htimer : t.timer = s.timer) : ¬ t.Late :=
  fun ⟨_, x, hx, hstage⟩ => hlate ⟨harmed, x, htimer ▸ hx, hstage⟩

/-- A fiber in the queue is resumed. -/
theorem returns_queued (hplace : s.place = .suspended) (hq : 0 < s.queued) (hlate : ¬ s.Late) : s.Returns e now := by
  refine (returns_resumed rfl ?_).step .resume (if_pos ⟨hplace, hq⟩)
  exact not_late_of_timer hlate (by rw [hplace]; rfl) rfl

/-- A `close` of the socket ends the wait of a fiber that is registered. -/
theorem returns_suspended (hheld : s.Held) (hplace : s.place = .suspended) (hlate : ¬ s.Late)
    (horphan : ¬ s.Orphaned) : s.Returns e now := by
  rcases hheld.waiting (by rw [hplace]; rfl) with ⟨hreg, hq⟩ | ⟨-, hq⟩
  · have hopen : s.closed = false := by
      cases hc : s.closed with
      | false => rfl
      | true => exact absurd ⟨hreg, hc⟩ horphan
    have hwoken : Call.Returns e now { s.trigger with closed := true } :=
      returns_queued hplace (Nat.succ_pos _) (not_late_of_timer hlate (by rw [hplace]; rfl) rfl)
    exact hwoken.step (.close true) (by simp [Call.next, hopen, hreg])
  · exact returns_queued hplace (hq ▸ Nat.one_pos) hlate

/-- **A call whose timer was not collected can return**, unless it is registered for a closed socket. -/
theorem returns_of_not_late (hheld : s.Held) (hlate : ¬ s.Late) (horphan : ¬ s.Orphaned) : s.Returns e now := by
  cases hplace : s.place with
  | direct => exact (Call.Returns.of_returned rfl).step (.connect .ok) (by simp only [Call.next, hplace]; rfl)
  | calling => exact (Call.Returns.of_returned rfl).step (.connect .ok) (by simp only [Call.next, hplace]; rfl)
  | arming =>
    have hrefused : Call.Returns e now { s with
        place := .refused
        timer := if s.timeout = -1 then none else some ⟨s.now, s.now + s.timeout, .pending⟩ } := by
      refine returns_refused rfl ?_
      rintro ⟨-, x, hx, hpending, -⟩
      obtain ⟨-, heq⟩ := Option.ite_none_left_eq_some.mp hx
      obtain rfl := Option.some.inj heq
      exact hpending rfl
    exact (hrefused.step (.addEvent false) rfl).step .arm (if_pos hplace)
  | registering =>
    refine (returns_refused rfl ?_).step (.addEvent false) (if_pos hplace)
    exact not_late_of_timer hlate (by rw [hplace]; rfl) rfl
  | yielding =>
    have hsuspended : Call.Returns e now { s with place := .suspended } :=
      returns_suspended (hheld.same (by rw [hplace]; rfl) rfl rfl) rfl
        (not_late_of_timer hlate (by rw [hplace]; rfl) rfl) horphan
    exact hsuspended.step .yield (if_pos hplace)
  | suspended => exact returns_suspended hheld hplace hlate horphan
  | resumed => exact returns_resumed hplace hlate
  | refused => exact returns_refused hplace hlate
  | checking => exact returns_checking hplace
  | asking => exact returns_asking hplace
  | returned o => exact .of_returned hplace

/-! ### Calls that do not return -/

/-- A socket that was closed stays so. -/
theorem Call.Step.stays_closed (hstep : s.Step move t) (hclosed : s.closed = true) : t.closed = true := by
  cases hstep with
  | resumed _ hcancel => exact (Call.later_cancelTimer hcancel).closed hclosed
  | skipped _ hcancel => exact (Call.later_cancelTimer hcancel).closed hclosed
  | callback => exact (Call.later_callback s _).closed hclosed
  | closed | shut => rfl
  | _ => exact hclosed

/-- **A call does not leave a wait whose timer was collected.** -/
theorem Call.Late.next (h : s.Late) (hstep : s.Step move t) : t.Late := by
  obtain ⟨harmed, x, hx, hpending, hcancelled⟩ := h
  -- `cancel()` is not defined there
  have hstuck : ∀ {place : Place}, s.cancelTimer place ≠ some t := by
    intro place hcancel
    rcases cancelTimer_cases hcancel with ⟨-, hgone⟩ | ⟨y, hy, hstage, -⟩
    · exact hcancelled (hgone x hx)
    · exact hpending (Option.some.inj (hx.symm.trans hy) ▸ hstage)
  cases hstep with
  | direct r hp | begun hp | answered r hp | arm hp | timedOut hp | clear hp | asked hp =>
    rw [hp] at harmed
    cases harmed
  | registered | refused | yield | resume => exact ⟨rfl, x, hx, hpending, hcancelled⟩
  | resumed _ hcancel => exact absurd hcancel hstuck
  | skipped _ hcancel => exact absurd hcancel hstuck
  | settle | ready | closed | shut | tick => exact ⟨harmed, x, hx, hpending, hcancelled⟩
  | collect | woken | done => exact ⟨harmed, _, rfl, nofun, nofun⟩
  | callback =>
    refine ⟨by simpa using harmed, ?_⟩
    unfold Call.callback
    split
    · exact ⟨_, rfl, nofun, nofun⟩
    · split <;> exact ⟨_, rfl, nofun, nofun⟩

/-- What is registered leaves its wait by readiness, by a `close`, or through its timer. -/
theorem registered_next (hheld : s.Held) (hreg : s.registered = true) (hstep : s.Step move t) :
    (t.registered = true ∨ t.Late) ∨ move = .ready ∨ move = .close true := by
  obtain ⟨hwaits, hq⟩ := hheld.of_registered hreg
  have hout : ∀ {place : Place}, s.place = place → place.waits = false →
      (t.registered = true ∨ t.Late) ∨ move = .ready ∨ move = .close true := by
    intro place hp hw
    rw [hp, hw] at hwaits
    cases hwaits
  cases hstep with
  | direct r hp | begun hp | answered r hp | arm hp | registered hp | refused hp | resumed hp | skipped hp
  | timedOut hp | clear hp | asked hp => exact hout hp rfl
  | resume _ hqueued => omega
  | ready => exact .inr (.inl rfl)
  | closed => exact .inr (.inr rfl)
  | woken =>
    have harmed : s.place.armed = true := by
      revert hwaits
      cases s.place <;> simp [Place.waits, Place.armed]
    exact .inl (.inr ⟨harmed, _, rfl, nofun, nofun⟩)
  | callback => exact .inl (.inl (by simpa using hreg))
  | yield | settle | shut | collect | done | tick => exact .inl (.inl hreg)

/-- **A call is stuck for good** once its timer was collected before its `cancel()`, or its socket closed under it. -/
theorem stuck_next (hstuck : s.Held ∧ (s.Late ∨ s.Orphaned)) (hn : s.next move = some t) :
    t.Held ∧ (t.Late ∨ t.Orphaned) := by
  obtain ⟨hheld, hstuck⟩ := hstuck
  have hstep := Call.step_of_next hn
  refine ⟨hheld.next hstep, ?_⟩
  rcases hstuck with hlate | ⟨hreg, hclosed⟩
  · exact .inl (hlate.next hstep)
  · rcases registered_next hheld hreg hstep with (hreg' | hlate) | rfl | rfl
    · exact .inr ⟨hreg', hstep.stays_closed hclosed⟩
    · exact .inl hlate
    · cases hstep with
      | ready _ _ hopen => exact absurd (hclosed.symm.trans hopen) nofun
    · cases hstep with
      | closed _ hopen => exact absurd (hclosed.symm.trans hopen) nofun
      | shut _ hopen => exact absurd (hclosed.symm.trans hopen) nofun

/-- So it does not return. -/
theorem not_returns_of_stuck (hheld : s.Held) (hstuck : s.Late ∨ s.Orphaned) : ¬ s.Returns e now := by
  rintro ⟨ms, t, o, hms, ht⟩
  obtain ⟨hheld', hlate | ⟨hreg, -⟩⟩ := System.exec_invariant (fun _ _ _ => stuck_next) ⟨hheld, hstuck⟩ hms
  · have harmed := hlate.1
    rw [ht] at harmed
    cases harmed
  · have hwaits := (hheld'.of_registered hreg).1
    rw [ht] at hwaits
    cases hwaits

/-- **A fiber in its wait returns by readiness or by a `close`**: its timeout does not bring it back. -/
theorem wake_of_returned {ms : List Move} {o : Outcome} (hheld : s.Held) (hreg : s.registered = true)
    (hms : (system e now).exec (fun _ _ => true) s ms = some t) (ht : t.place = .returned o) :
    .ready ∈ ms ∨ .close true ∈ ms := by
  induction ms generalizing s with
  | nil =>
    obtain rfl := Option.some.inj hms
    have hwaits := (hheld.of_registered hreg).1
    rw [ht] at hwaits
    cases hwaits
  | cons m ms ih =>
    obtain ⟨u, hu, hms⟩ := Option.bind_eq_some_iff.mp hms
    have hstep := Call.step_of_next hu
    have hheld' := hheld.next hstep
    rcases registered_next hheld hreg hstep with (hreg' | hlate) | rfl | rfl
    · exact (ih hheld' hreg' hms).imp (List.mem_cons_of_mem m) (List.mem_cons_of_mem m)
    · exact absurd ⟨ms, t, o, hms, ht⟩ (not_returns_of_stuck hheld' (.inl hlate))
    · exact .inl List.mem_cons_self
    · exact .inr List.mem_cons_self

/-- **Which calls can return**: in every state of every run, some steps (of the call, its timer, the peer or another
fiber, whatever they answer) lead to the return of the call if and only if its timer was not collected before it came to
cancel it and it is not registered for a socket that was closed.  While it is registered, every way to its return has
readiness or a `close` in it. -/
theorem returns_iff (h : (system e now).Run anyStep ls s) :
    (s.Returns e now ↔ ¬ s.Late ∧ ¬ s.Orphaned) ∧
      ∀ ms t o, s.registered = true → (system e now).exec (fun _ _ => true) s ms = some t → t.place = .returned o →
        .ready ∈ ms ∨ .close true ∈ ms := by
  have hheld := (known_run h).held
  refine ⟨⟨fun hret => ⟨fun hlate => ?_, fun horphan => ?_⟩, fun hfree => ?_⟩, fun ms t o hreg hms ht => ?_⟩
  · exact not_returns_of_stuck hheld (.inl hlate) hret
  · exact not_returns_of_stuck hheld (.inr horphan) hret
  · exact returns_of_not_late hheld hfree.1 hfree.2
  · exact wake_of_returned hheld hreg hms ht

/-- A run in which the timer ends the wait. -/
def timeoutRun : List Move :=
  [.connect .EINPROGRESS, .arm, .addEvent true, .yield, .tick 5000, .collect, .callback, .cancelEvent true, .resume]

/-- **The timeout does not bring the call back.** -/
theorem returns_iff_timeout :
    ∃ s, (system (.wait 5000) 0).Run anyStep timeoutRun s ∧ s.place = .resumed ∧ s.cancelled = true ∧
      ¬ s.Returns (.wait 5000) 0 := by
  obtain ⟨s, hs⟩ : ∃ s, Call.after (.wait 5000) 0 timeoutRun = some s := ⟨_, rfl⟩
  have hend : s.place = .resumed ∧ s.cancelled = true ∧ s.Late := by
    obtain rfl := Option.some.inj hs
    exact ⟨rfl, rfl, rfl, _, rfl, nofun, nofun⟩
  obtain ⟨hplace, hset, hlate⟩ := hend
  exact ⟨s, run_of_after hs, hplace, hset, fun hret => ((returns_iff (run_of_after hs)).1.mp hret).1 hlate⟩

end Returns
end Connect
end Wuchat
