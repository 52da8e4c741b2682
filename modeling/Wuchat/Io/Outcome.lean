/-
# What a call of the IO manager can do

`Outcome` says once what a call does to the registrations: nothing, one more, or some of one
descriptor less.  `call_outcome` says that every call does one of these when it is sound
(`Call.Sound`), and that the program aborts when it is not: an `addEvent` for an event that is
registered, or an item of `epoll_wait` that reports an event that is still registered and one that
is not any more.

`WellFormed` adds to `Core` that epoll watches for what is registered.
-/

import Wuchat.Io.Invariant

namespace Wuchat
namespace Io

/-- What the manager keeps. -/
structure WellFormed (m : Manager) : Prop extends Core m where
  interest : ∀ fd, m.interest fd = (m.contexts fd).event.interest
  aborted : m.aborted = false

/-- The item reports only events that are registered. -/
def Item.Fresh (item : Item) (event : Mask) : Prop := ∀ e, item.events.has e = true → event.has e = true

/-- The item reports none of the events that are registered. -/
def Item.Dead (item : Item) (event : Mask) : Prop :=
  ∀ e, event.has e = true → item.events.has e = false ∧ item.err = false

/-- An item is fresh exactly when all of `real_events` are registered: an error adds only registered ones. -/
theorem Item.fresh_iff {item : Item} {event : Mask} :
    item.Fresh event ↔ ∀ e, (item.realEvents event).has e = true → event.has e = true := by
  constructor
  · intro h e he
    rcases real_iff.1 he with he | he
    · exact h e he
    · exact he.2
  · intro h e he
    exact h e (real_iff.2 (.inl he))

/-- An item is dead exactly when none of `real_events` is registered. -/
theorem Item.dead_iff {item : Item} {event : Mask} :
    item.Dead event ↔ event.inter (item.realEvents event) = .none := by
  rw [Mask.eq_none_iff]
  refine forall_congr' fun e => ?_
  have hreal : (item.realEvents event).has e = false ↔ ¬ (item.events.has e = true ∨ _) :=
    Bool.eq_false_iff.trans (not_congr real_iff)
  rw [Mask.has_inter]
  cases hev : event.has e with
  | false => simp
  | true =>
    rw [Bool.true_and, hreal, hev]
    simp

/-- `addEvent` is called for an event that is not registered yet. -/
def Call.Unregistered (m : Manager) : Call → Prop
  | .addEvent fd e _ _ _ _ => m.has fd e = false
  | _ => True

/-- The item handled, if `epoll_ctl` lets it be handled, reports only events that are registered, or none of those
that are. -/
def Call.Intact (m : Manager) : Call → Prop
  | .process thread ok => ok = true → ∀ item ∈ (m.items thread).head?,
      item.Fresh (m.contexts item.fd).event ∨ item.Dead (m.contexts item.fd).event
  | _ => True

/-- What a call needs so that no assertion fails. -/
def Call.Sound (m : Manager) (c : Call) : Prop := c.Unregistered m ∧ c.Intact m

/-- The events of a descriptor that a call which returns true ends. -/
def Call.Ends (m : Manager) (fd : Nat) (es : List Event) : Call → Prop
  | .delEvent i e _ => i = fd ∧ es = [e]
  | .cancelEvent i e _ => i = fd ∧ es = [e]
  | .cancelAll i _ => i = fd ∧ ∀ e, e ∈ es ↔ m.has fd e = true
  | .process thread _ => ∃ item ∈ (m.items thread).head?, item.fd = fd ∧
      ∀ e, e ∈ es ↔ (item.realEvents (m.contexts fd).event).has e = true
  | _ => False

/-- What a call does to a registration that it ends. -/
def Call.ending (c : Call) (ctx : EventContext) : Effect :=
  match c with
  | .delEvent _ _ _ => .dropped ctx.reg
  | _ => .handed ctx.reg ctx.scheduler ctx.work

/-- The context that `addEvent` fills. -/
def newContext (scheduler : Option Nat) (fiber : Nat) (cb : Option Nat) (reg : Nat) : EventContext :=
  ⟨scheduler, if cb.isSome then none else some fiber, cb, reg⟩

/-- **What a call can do** to the registrations. -/
inductive Outcome (m : Manager) : Call → Result → Prop
  | same {c : Call} {ret : Bool} {m' : Manager} : Same m m' →
      (ret = true → ∃ thread items, c = .wait thread items) → Outcome m c ⟨ret, [], m'⟩
  | added {fd : Nat} {e : Event} {scheduler : Option Nat} {fiber : Nat} {cb : Option Nat} {m' : Manager} :
      Same m m' → fd < m'.size → m.has fd e = false →
      Outcome m (.addEvent fd e scheduler fiber cb true)
        ⟨true, [.added m.count fd e scheduler (newContext scheduler fiber cb m.count).work],
          (m'.watch fd (some ((m.contexts fd).event.add e))).register fd e (newContext scheduler fiber cb m.count)⟩
  | ended {c : Call} {fd : Nat} {es : List Event} {m' : Manager} : c.Ends m fd es → es.Nodup →
      (∀ e ∈ es, m.has fd e = true) → Same m m' →
      Outcome m c ⟨true, es.map fun e => c.ending (m.ctx fd e),
        (m'.watch fd ((m.contexts fd).event.without es).interest).unregisterAll fd es⟩

namespace WellFormed

variable {m m' : Manager} {fd : Nat} {e : Event} {r : Result} {ok : Bool}

/-- A manager with the same contexts is well formed. -/
theorem same (h : WellFormed m) (hs : Same m m') : WellFormed m' := by
  refine ⟨h.of_same hs.contexts hs.pending hs.size_le hs.le_size, fun fd => ?_, hs.aborted.trans h.aborted⟩
  rw [hs.interest, hs.contexts]
  exact h.interest fd

/-- A manager is the same as itself. -/
theorem same_self (h : WellFormed m) : Same m m := ⟨rfl, rfl, rfl, rfl, rfl, Nat.le_refl _, h.size_le⟩

/-- **What a call does keeps the manager well-formed.** -/
theorem outcome (h : WellFormed m) {c : Call} (ho : Outcome m c r) : WellFormed r.mgr := by
  cases ho with
  | same hs _ => exact h.same hs
  | @added fd e scheduler fiber cb m' hs hfd hno =>
    have hfilled : (newContext scheduler fiber cb m.count).NonEmpty := by
      cases cb with
      | none => exact .inr (.inl rfl)
      | some f => exact .inr (.inr rfl)
    refine ⟨(h.watch hs _).register hfd (hs.has_watch.trans hno) hfilled, fun i => ?_, hs.aborted.trans h.aborted⟩
    show Function.update m'.interest fd _ i = (Function.update m'.contexts fd _ i).event.interest
    by_cases hi : i = fd
    · subst hi
      rw [Function.update_self, Function.update_self, FdContext.event_set, FdContext.event_setEvent]
      show _ = ((m'.contexts i).event.add e).interest
      rw [hs.contexts, Mask.interest, if_neg]
      intro hnone
      have hbit := Mask.eq_none_iff.1 hnone e
      simp at hbit
    · rw [Function.update_of_ne hi, Function.update_of_ne hi, hs.interest, hs.contexts]
      exact h.interest i
  | @ended c fd es m' _ hes hhas hs =>
    refine ⟨(h.watch hs _).unregisterAll hes fun e he => hs.has_watch.trans (hhas e he), fun i => ?_, ?_⟩
    · rw [Manager.unregisterAll_interest]
      show Function.update m'.interest fd _ i = _
      by_cases hi : i = fd
      · subst hi
        rw [Function.update_self, Manager.event_unregisterAll]
        show _ = ((m'.contexts i).event.without es).interest
        rw [hs.contexts]
      · rw [Function.update_of_ne hi, hs.interest, h.interest i, Manager.contexts_unregisterAll_ne hi]
        show _ = (m'.contexts i).event.interest
        rw [hs.contexts]
    · rw [Manager.unregisterAll_aborted]
      exact hs.aborted.trans h.aborted

/-! ### The answers of epoll -/

/-- A registered event is watched. -/
theorem interest_isSome (h : WellFormed m) (hh : m.has fd e = true) : (m.interest fd).isSome = true := by
  rw [h.interest, Mask.interest, if_neg]
  · rfl
  · intro hnone
    rw [Manager.has, Mask.eq_none_iff.1 hnone] at hh
    cases hh

/-- A registered descriptor is changed or deleted, if epoll wants. -/
theorem epollCtl_modOrDel (h : WellFormed m) (hh : m.has fd e = true) (left : Mask) :
    m.epollCtl (modOrDel left) fd left ok = if ok then some (m.watch fd left.interest) else none := by
  obtain ⟨mask, hmask⟩ := Option.isSome_iff_exists.1 (h.interest_isSome hh)
  unfold Manager.epollCtl
  rw [hmask, modOrDel, Mask.interest]
  cases ok with
  | false => rfl
  | true =>
    by_cases hnone : left = .none
    · rw [if_pos hnone, if_pos hnone]
    · rw [if_neg hnone, if_neg hnone]

/-- The end of a watch succeeds as `epoll_ctl` answers. -/
theorem epollCtl_del (h : WellFormed m) (hh : m.has fd e = true) :
    m.epollCtl .del fd .none ok = if ok then some (m.watch fd none) else none := by
  obtain ⟨mask, hmask⟩ := Option.isSome_iff_exists.1 (h.interest_isSome hh)
  unfold Manager.epollCtl
  rw [hmask]

/-- A descriptor is added, or changed when it has events already, if epoll wants. -/
theorem epollCtl_add (h : WellFormed m) (mask : Mask) :
    m.epollCtl (if (m.contexts fd).event = .none then .add else .mod) fd mask ok =
      if ok then some (m.watch fd (some mask)) else none := by
  unfold Manager.epollCtl
  rw [h.interest, Mask.interest]
  cases ok with
  | false => rfl
  | true =>
    by_cases hnone : (m.contexts fd).event = .none
    · rw [if_pos hnone, if_pos hnone]
    · rw [if_neg hnone, if_neg hnone]

/-! ### The calls -/

/-- The context lookup of `addEvent` finds the context, and makes new ones when it has to. -/
theorem grow_same (h : WellFormed m) (hm : m.grow fd = some m') : Same m m' ∧ fd < m'.size := by
  rw [Manager.grow] at hm
  split at hm
  · rename_i hfd
    obtain rfl := Option.some.inj hm
    exact ⟨h.same_self, hfd⟩
  · rename_i hfd
    split at hm
    · rename_i hlt
      obtain rfl := Option.some.inj hm
      have hpos := h.size_pos
      have hfd' : fd < fd * 2 := by omega
      have hle : m.size ≤ fd * 2 := by omega
      refine ⟨⟨?_, rfl, rfl, rfl, rfl, hle, Nat.le_of_lt hlt⟩, hfd'⟩
      funext i
      show (if i < fd * 2 then m.contexts i else .new) = m.contexts i
      split
      · rfl
      · rw [h.contexts_eq_new (by omega)]
    · cases hm

/-- What `addEvent` does, on every way through it. -/
theorem addEvent_outcome (h : WellFormed m) {scheduler : Option Nat} {fiber : Nat} {cb : Option Nat}
    (hr : m.addEvent fd e scheduler fiber cb ok = some r) :
    let c := Call.addEvent fd e scheduler fiber cb ok
    (c.Sound m ∧ Outcome m c r) ∨ (¬ c.Sound m ∧ r.mgr.aborted = true) := by
  intro c
  obtain ⟨m₁, hgrow, rfl⟩ := Option.map_eq_some_iff.1 hr
  obtain ⟨hs, hfd⟩ := h.grow_same hgrow
  have h₁ := h.same hs
  have hhas : (m₁.contexts fd).event.has e = m.has fd e := by rw [hs.contexts, Manager.has]
  dsimp only
  rw [hhas]
  cases hreg : m.has fd e with
  | true =>
    rw [if_pos rfl]
    refine .inr ⟨fun hsound => ?_, rfl⟩
    have hno : m.has fd e = false := hsound.1
    rw [hreg] at hno
    cases hno
  | false =>
    refine .inl ⟨⟨hreg, trivial⟩, ?_⟩
    rw [if_neg Bool.false_ne_true, h₁.epollCtl_add]
    cases ok with
    | false => exact .same hs fun hret => Bool.noConfusion hret
    | true =>
      -- the context is empty, so the second assertion holds
      have hempty : ¬ (((m₁.contexts fd).setEvent ((m₁.contexts fd).event.add e)).getEventContext e).NonEmpty := by
        have hctx : (m₁.contexts fd).getEventContext e = .empty := h₁.empty fd e (hhas.trans hreg)
        rw [FdContext.get_setEvent, hctx]
        decide
      simp only [if_true]
      rw [if_neg hempty]
      have hadd := @Outcome.added m fd e scheduler fiber cb m₁ hs hfd hreg
      rw [← hs.contexts, ← hs.count] at hadd
      exact hadd

/-- A call that returns false early. -/
theorem quiet (h : WellFormed m) (c : Call) : Outcome m c ⟨false, [], m⟩ :=
  .same h.same_self fun hret => Bool.noConfusion hret

/-- What `delEvent` does. -/
theorem delEvent_outcome (h : WellFormed m) : Outcome m (.delEvent fd e ok) (m.delEvent fd e ok) := by
  have hquiet := h.quiet (.delEvent fd e ok)
  rw [Manager.delEvent]
  split
  · exact hquiet
  dsimp only
  split
  · rename_i hh
    rw [h.epollCtl_modOrDel hh]
    cases ok with
    | false => exact hquiet
    | true =>
      have hend : ∀ x ∈ [e], m.has fd x = true := fun x hx => List.mem_singleton.1 hx ▸ hh
      rw [Mask.remove_eq_without]
      exact .ended (c := .delEvent fd e true) ⟨rfl, rfl⟩ (List.nodup_singleton e) hend h.same_self
  · exact hquiet

/-- What `cancelEvent` does. -/
theorem cancelEvent_outcome (h : WellFormed m) (hr : m.cancelEvent fd e ok = some r) :
    Outcome m (.cancelEvent fd e ok) r := by
  have hquiet := h.quiet (.cancelEvent fd e ok)
  rw [Manager.cancelEvent] at hr
  split at hr
  · exact Option.some.inj hr ▸ hquiet
  dsimp only at hr
  split at hr
  · rename_i hh
    rw [h.epollCtl_modOrDel hh] at hr
    cases ok with
    | false => exact Option.some.inj hr ▸ hquiet
    | true =>
      rw [Mask.remove_eq_without] at hr
      have hall : Manager.fireAll fd [e] ⟨true, [], m.watch fd ((m.contexts fd).event.without [e]).interest⟩ =
          some r := by
        rw [Manager.fireAll, List.foldlM_cons]
        exact (bind_pure _).trans hr
      have hend : ∀ x ∈ [e], m.has fd x = true := fun x hx => List.mem_singleton.1 hx ▸ hh
      rcases Manager.fireAll_cases (List.nodup_singleton e) h.aborted hall with ⟨-, rfl⟩ | ⟨⟨x, hx, hno⟩, -⟩
      · exact .ended (c := .cancelEvent fd e true) ⟨rfl, rfl⟩ (List.nodup_singleton e) hend h.same_self
      · exact Bool.noConfusion ((hend x hx).symm.trans hno)
  · exact Option.some.inj hr ▸ hquiet

/-- Firing `READ` leaves `WRITE`. -/
theorem fireIf_read_write {r r' : Result} (hr : r.mgr.aborted = false)
    (hfire : Manager.fireIf (r.mgr.has fd .read) fd .read r = some r') :
    r'.mgr.has fd .write = r.mgr.has fd .write := by
  rw [Manager.fireIf] at hfire
  split at hfire
  · rename_i hread
    rw [Manager.fire_eq hr, if_pos hread] at hfire
    split at hfire
    · obtain rfl := Option.some.inj hfire
      rw [Manager.has_unregister]
      simp
    · cases hfire
  · obtain rfl := Option.some.inj hfire
    rfl

/-- What `cancelAll` does. -/
theorem cancelAll_outcome (h : WellFormed m) (hr : m.cancelAll fd ok = some r) : Outcome m (.cancelAll fd ok) r := by
  have hquiet := h.quiet (.cancelAll fd ok)
  rw [Manager.cancelAll] at hr
  split at hr
  · exact Option.some.inj hr ▸ hquiet
  dsimp only at hr
  split at hr
  · exact Option.some.inj hr ▸ hquiet
  · rename_i hne
    obtain ⟨e, hh⟩ := Mask.exists_has hne
    rw [h.epollCtl_del hh] at hr
    cases ok with
    | false => exact Option.some.inj hr ▸ hquiet
    | true =>
      have hleft : (m.contexts fd).event.without (Manager.eventsWith (m.has fd)) = .none := by
        refine Mask.eq_none_iff.2 fun x => ?_
        simp only [Mask.has_without, Manager.mem_eventsWith]
        show (m.has fd x && !decide (m.has fd x = true)) = false
        cases m.has fd x <;> rfl
      have hwatch : m.watch fd none =
          m.watch fd ((m.contexts fd).event.without (Manager.eventsWith (m.has fd))).interest := by
        rw [hleft]
        rfl
      obtain ⟨r₁, hr₁, hr⟩ := Option.bind_eq_some_iff.1 hr
      obtain ⟨r₂, hr₂, rfl⟩ := Option.map_eq_some_iff.1 hr
      have hwrite : r₁.mgr.has fd .write = m.has fd .write :=
        fireIf_read_write (r := ⟨true, [], m.watch fd none⟩) h.aborted hr₁
      have hall : Manager.fireAll fd (Manager.eventsWith (m.has fd)) ⟨true, [], m.watch fd none⟩ = some r₂ := by
        rw [Manager.fireAll_eventsWith]
        refine Option.bind_eq_some_iff.2 ⟨r₁, hr₁, ?_⟩
        rw [← hwrite]
        exact hr₂
      have hend : ∀ x ∈ Manager.eventsWith (m.has fd), m.has fd x = true := fun x hx => Manager.mem_eventsWith.1 hx
      have hnodup := Manager.eventsWith_nodup (m.has fd)
      rcases Manager.fireAll_cases hnodup h.aborted hall with ⟨-, rfl⟩ | ⟨⟨x, hx, hno⟩, -⟩
      · -- nothing is left, so the last assertion holds
        have hnone : (((m.watch fd none).unregisterAll fd (Manager.eventsWith (m.has fd))).contexts fd).event = .none :=
          Manager.event_unregisterAll.trans hleft
        dsimp only
        rw [if_pos hnone, hwatch]
        exact .ended (c := .cancelAll fd true) ⟨rfl, fun x => Manager.mem_eventsWith⟩ hnodup hend h.same_self
      · exact Bool.noConfusion ((hend x hx).symm.trans hno)

/-- **Handling an item**: it is passed over, or its events are handed out, or it is half stale and the program
aborts. -/
theorem process_cases (h : WellFormed m) {item : Item} (hr : m.process item ok = some r) :
    (r = ⟨false, [], m⟩ ∧ (ok = true → item.Dead (m.contexts item.fd).event)) ∨
    (item.Fresh (m.contexts item.fd).event ∧ ∃ es, es.Nodup ∧
      (∀ e, e ∈ es ↔ (item.realEvents (m.contexts item.fd).event).has e = true) ∧
      r = ⟨true, es.map (m.handedBy item.fd),
        (m.watch item.fd ((m.contexts item.fd).event.without es).interest).unregisterAll item.fd es⟩) ∨
    (ok = true ∧ ¬ item.Fresh (m.contexts item.fd).event ∧ ¬ item.Dead (m.contexts item.fd).event ∧
      r.mgr.aborted = true) := by
  rw [Manager.process] at hr
  dsimp only at hr
  split at hr
  · rename_i hnone
    exact .inl ⟨(Option.some.inj hr).symm, fun _ => Item.dead_iff.2 hnone⟩
  · rename_i hsome
    obtain ⟨y, hy⟩ := Mask.exists_has hsome
    rw [Mask.has_inter, Bool.and_eq_true] at hy
    rw [h.epollCtl_modOrDel hy.1] at hr
    cases ok with
    | false => exact .inl ⟨(Option.some.inj hr).symm, fun hok => Bool.noConfusion hok⟩
    | true =>
      set real := item.realEvents (m.contexts item.fd).event with hreal
      have hleft : (m.contexts item.fd).event.diff real =
          (m.contexts item.fd).event.without (Manager.eventsWith real.has) := by
        refine Mask.ext_has fun x => ?_
        simp only [Mask.has_diff, Mask.has_without, Manager.mem_eventsWith]
        cases real.has x <;> rfl
      rw [hleft] at hr
      have hall : Manager.fireAll item.fd (Manager.eventsWith real.has) ⟨true, [],
          m.watch item.fd ((m.contexts item.fd).event.without (Manager.eventsWith real.has)).interest⟩ = some r := by
        rw [Manager.fireAll_eventsWith]
        exact hr
      have hnodup := Manager.eventsWith_nodup real.has
      rcases Manager.fireAll_cases hnodup h.aborted hall with ⟨hend, rfl⟩ | ⟨⟨x, hx, hno⟩, hab⟩
      · refine .inr (.inl ⟨Item.fresh_iff.2 fun x hx => ?_, _, hnodup, fun x => Manager.mem_eventsWith, rfl⟩)
        exact hend x (Manager.mem_eventsWith.2 hx)
      · refine .inr (.inr ⟨rfl, fun hfresh => ?_, fun hdead => hsome (Item.dead_iff.1 hdead), hab⟩)
        have hhas := Item.fresh_iff.1 hfresh x (Manager.mem_eventsWith.1 hx)
        exact Bool.noConfusion (hhas.symm.trans hno)

/-- The next item of a thread: sound, or the program aborts. -/
theorem processNext_outcome (h : WellFormed m) {thread : Nat} (hr : m.processNext thread ok = some r) :
    let c := Call.process thread ok
    (c.Sound m ∧ Outcome m c r) ∨ (¬ c.Sound m ∧ r.mgr.aborted = true) := by
  intro c
  rw [Manager.processNext] at hr
  split at hr
  · cases hr
  rename_i item items hitems
  have hhead : (m.items thread).head? = some item := by rw [hitems]; rfl
  have hsound : (ok = true → item.Fresh (m.contexts item.fd).event ∨ item.Dead (m.contexts item.fd).event) →
      c.Sound m := by
    refine fun hitem => ⟨trivial, fun hok i hi => ?_⟩
    obtain rfl : item = i := Option.some.inj (hhead.symm.trans hi)
    exact hitem hok
  generalize hm₁ : ({ m with items := Function.update m.items thread items } : Manager) = m₁ at hr
  have hs : Same m m₁ := by
    subst hm₁
    exact ⟨rfl, rfl, rfl, rfl, rfl, Nat.le_refl _, h.size_le⟩
  have hcases := (h.same hs).process_cases hr
  rw [hs.contexts] at hcases
  rcases hcases with ⟨rfl, hdead⟩ | ⟨hfresh, es, hnodup, hes, rfl⟩ | ⟨rfl, hfresh, hdead, hab⟩
  · exact .inl ⟨hsound fun hok => .inr (hdead hok), .same hs fun hret => Bool.noConfusion hret⟩
  · refine .inl ⟨hsound fun _ => .inl hfresh, ?_⟩
    have hend : ∀ x ∈ es, m.has item.fd x = true := fun x hx => Item.fresh_iff.1 hfresh x ((hes x).1 hx)
    have hby : es.map (m₁.handedBy item.fd) = es.map fun x => c.ending (m.ctx item.fd x) := by
      refine List.map_congr_left fun x _ => ?_
      rw [Manager.handedBy, Manager.ctx, hs.contexts]
      rfl
    rw [hby]
    exact .ended (c := c) ⟨item, hhead, rfl, hes⟩ hnodup hend hs
  · exact .inr ⟨fun hc => (hc.2 rfl item hhead).elim hfresh hdead, hab⟩

/-- **Every call does one of these**, or is not sound and aborts. -/
theorem call_outcome (h : WellFormed m) {c : Call} (hr : m.call c = some r) :
    (c.Sound m ∧ Outcome m c r) ∨ (¬ c.Sound m ∧ r.mgr.aborted = true) := by
  cases c with
  | addEvent fd e scheduler fiber cb ok => exact h.addEvent_outcome hr
  | delEvent fd e ok => exact .inl ⟨⟨trivial, trivial⟩, Option.some.inj hr ▸ h.delEvent_outcome⟩
  | cancelEvent fd e ok => exact .inl ⟨⟨trivial, trivial⟩, h.cancelEvent_outcome hr⟩
  | cancelAll fd ok => exact .inl ⟨⟨trivial, trivial⟩, h.cancelAll_outcome hr⟩
  | wait thread items =>
    refine .inl ⟨⟨trivial, trivial⟩, ?_⟩
    have hwait : m.wait thread items = some r := hr
    rw [Manager.wait] at hwait
    split at hwait
    · obtain rfl := Option.some.inj hwait
      exact .same ⟨rfl, rfl, rfl, rfl, rfl, Nat.le_refl _, h.size_le⟩ fun _ => ⟨thread, items, rfl⟩
    · cases hwait
  | process thread ok => exact h.processNext_outcome hr

end WellFormed

end Io
end Wuchat
