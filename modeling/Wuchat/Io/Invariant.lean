/-
# What the IO manager keeps about its registrations

The events registered on a descriptor are a mask (`Mask.has`), and each event has a context
(`Manager.ctx`).  `Core` is what these and the counter keep: a context is filled exactly where the
event is registered, only contexts that exist have events, and `m_pendingEventCount` is the number
of registrations.  It is kept by one registration more (`Core.register`) and by one less
(`Core.unregister`).

`delEvent`, `cancelEvent`, `cancelAll` and `idle` take events off one descriptor.  The last three
fire them; `Manager.fireAll_cases` says what comes of it.
-/

import Wuchat.Io.Manager

namespace Wuchat
namespace Io

/-! ### Masks and contexts -/

namespace Mask

variable {m r : Mask} {e x : Event}

/-- The events of a mask made from a predicate. -/
@[simp] theorem has_ofFn (f : Event → Bool) : (ofFn f).has e = f e := by cases e <;> rfl

/-- The empty mask has no event. -/
@[simp] theorem has_none : none.has e = false := by cases e <;> rfl

/-- The events with one more. -/
@[simp] theorem has_add : (m.add e).has x = (m.has x || decide (x = e)) := has_ofFn _

/-- The events without one. -/
@[simp] theorem has_remove : (m.remove e).has x = (m.has x && !decide (x = e)) := has_ofFn _

/-- The events of both. -/
@[simp] theorem has_union : (m.union r).has x = (m.has x || r.has x) := has_ofFn _

/-- The events in common. -/
@[simp] theorem has_inter : (m.inter r).has x = (m.has x && r.has x) := has_ofFn _

/-- The events of the one that the other has not. -/
@[simp] theorem has_diff : (m.diff r).has x = (m.has x && !r.has x) := has_ofFn _

/-- A mask is its events. -/
theorem ext_has (h : ∀ e, m.has e = r.has e) : m = r := by
  obtain ⟨a, b⟩ := m
  obtain ⟨c, d⟩ := r
  exact congrArg₂ Mask.mk (h .read) (h .write)

/-- A mask is empty when it has no event. -/
theorem eq_none_iff : m = none ↔ ∀ e, m.has e = false := by
  constructor
  · rintro rfl e
    exact has_none
  · intro h
    exact ext_has fun e => (h e).trans has_none.symm

/-- A mask that is not empty has an event. -/
theorem exists_has (h : m ≠ none) : ∃ e, m.has e = true := by
  refine Classical.byContradiction fun hno => h (eq_none_iff.2 fun e => ?_)
  exact Bool.eq_false_iff.2 fun he => hno ⟨e, he⟩

/-- A mask without some events. -/
def without (m : Mask) (es : List Event) : Mask := ofFn fun x => m.has x && !decide (x ∈ es)

/-- The events without some. -/
@[simp] theorem has_without {es : List Event} : (m.without es).has x = (m.has x && !decide (x ∈ es)) := has_ofFn _

/-- Without one event is without a list of one. -/
theorem remove_eq_without : m.remove e = m.without [e] := ext_has fun x => by simp

/-- What epoll is told to watch for. -/
def interest (m : Mask) : Option Mask := if m = none then Option.none else some m

end Mask

/-- What an item really reports: its events, and every registered one on an error. -/
theorem real_iff {item : Item} {event : Mask} {e : Event} :
    (item.realEvents event).has e = true ↔ item.events.has e = true ∨ (item.err = true ∧ event.has e = true) := by
  rw [Item.realEvents]
  split
  · rename_i herr
    rw [Mask.has_union, Bool.or_eq_true]
    simp only [herr, true_and]
  · rename_i herr
    simp only [herr, Bool.false_eq_true, false_and, or_false]

namespace FdContext

variable {c : FdContext} {ctx : EventContext} {e x : Event} {event : Mask}

/-- The context that was set. -/
@[simp] theorem get_set_self : (c.setEventContext ctx e).getEventContext e = ctx := by cases e <;> rfl

/-- The other one is left. -/
theorem get_set_ne (h : x ≠ e) : (c.setEventContext ctx e).getEventContext x = c.getEventContext x := by
  cases e <;> cases x <;> first | rfl | exact absurd rfl h

/-- A context set leaves the mask. -/
@[simp] theorem event_set : (c.setEventContext ctx e).event = c.event := by cases e <;> rfl

/-- A mask set leaves the contexts. -/
@[simp] theorem get_setEvent : (c.setEvent event).getEventContext e = c.getEventContext e := by cases e <;> rfl

/-- The mask that was set. -/
@[simp] theorem event_setEvent : (c.setEvent event).event = event := rfl

end FdContext

namespace Manager

/-- The event is registered on the descriptor. -/
def has (m : Manager) (fd : Nat) (e : Event) : Bool := (m.contexts fd).event.has e

/-- The context of an event of a descriptor. -/
def ctx (m : Manager) (fd : Nat) (e : Event) : EventContext := (m.contexts fd).getEventContext e

/-- The registered pairs of a descriptor and an event. -/
def registered (m : Manager) : Finset (Nat × Event) :=
  (Finset.range m.size ×ˢ {Event.read, Event.write}).filter fun p => m.has p.1 p.2 = true

/-- The event put on its descriptor, with its context, and one pending event more. -/
def register (m : Manager) (fd : Nat) (e : Event) (c : EventContext) : Manager :=
  { m.setContext fd (((m.contexts fd).setEvent ((m.contexts fd).event.add e)).setEventContext c e) with
    pending := m.pending + 1
    count := m.count + 1 }

variable {m : Manager} {fd i : Nat} {e x : Event} {c : EventContext}

/-- What is registered behind a registration. -/
theorem has_register : (m.register fd e c).has i x = (m.has i x || decide (i = fd ∧ x = e)) := by
  by_cases hi : i = fd
  · subst hi
    simp [has, register, setContext]
  · simp [has, register, setContext, hi]

/-- The context registered. -/
theorem ctx_register_self : (m.register fd e c).ctx fd e = c := by simp [ctx, register, setContext]

/-- The others are left. -/
theorem ctx_register_ne (h : ¬ (i = fd ∧ x = e)) : (m.register fd e c).ctx i x = m.ctx i x := by
  by_cases hi : i = fd
  · subst hi
    have hx : x ≠ e := fun hx => h ⟨rfl, hx⟩
    simp [ctx, register, setContext, FdContext.get_set_ne hx]
  · simp [ctx, register, setContext, hi]

/-- What is registered behind the end of a registration. -/
theorem has_unregister : (m.unregister fd e).has i x = (m.has i x && !decide (i = fd ∧ x = e)) := by
  by_cases hi : i = fd
  · subst hi
    simp [has, unregister, setContext, FdContext.clear]
  · simp [has, unregister, setContext, hi]

/-- Its context is empty. -/
theorem ctx_unregister_self : (m.unregister fd e).ctx fd e = .empty := by
  simp [ctx, unregister, setContext, FdContext.clear]

/-- The others are left. -/
theorem ctx_unregister_ne (h : ¬ (i = fd ∧ x = e)) : (m.unregister fd e).ctx i x = m.ctx i x := by
  by_cases hi : i = fd
  · subst hi
    have hx : x ≠ e := fun hx => h ⟨rfl, hx⟩
    simp [ctx, unregister, setContext, FdContext.clear, FdContext.get_set_ne hx]
  · simp [ctx, unregister, setContext, hi]

/-- The registered pairs, below the table's size. -/
theorem mem_registered : (fd, e) ∈ m.registered ↔ fd < m.size ∧ m.has fd e = true := by
  cases e <;> simp [registered]

/-- There are at most two for each context. -/
theorem card_registered_le : m.registered.card ≤ m.size * 2 := by
  refine (Finset.card_filter_le _ _).trans ?_
  rw [Finset.card_product, Finset.card_range]
  exact Nat.le_of_eq (congrArg (m.size * ·) (by decide))

end Manager

/-! ### The registrations and their number -/

/-- What the contexts and the counter keep. -/
structure Core (m : Manager) : Prop where
  empty : ∀ fd e, m.has fd e = false → m.ctx fd e = .empty
  filled : ∀ fd e, m.has fd e = true → (m.ctx fd e).NonEmpty
  inRange : ∀ fd e, m.has fd e = true → fd < m.size
  size_pos : 0 < m.size
  size_le : m.size ≤ 2 ^ 31
  pending : m.pending.toNat = m.registered.card

/-- The manager is as before, up to the items and to contexts that are new. -/
structure Same (m m' : Manager) : Prop where
  contexts : m'.contexts = m.contexts
  interest : m'.interest = m.interest
  pending : m'.pending = m.pending
  count : m'.count = m.count
  aborted : m'.aborted = m.aborted
  size_le : m.size ≤ m'.size
  le_size : m'.size ≤ 2 ^ 31

namespace Same

variable {m m' : Manager} {fd i : Nat} {e : Event} {mask : Option Mask}

/-- What is registered does not depend on what epoll watches for. -/
theorem has_watch (hs : Same m m') : (m'.watch fd mask).has i e = m.has i e := by
  show (m'.contexts i).event.has e = (m.contexts i).event.has e
  rw [hs.contexts]

/-- What epoll watches is no context. -/
theorem ctx_watch (hs : Same m m') : (m'.watch fd mask).ctx i e = m.ctx i e := by
  show (m'.contexts i).getEventContext e = (m.contexts i).getEventContext e
  rw [hs.contexts]

end Same

namespace Core

variable {m m' : Manager} {fd : Nat} {e : Event}

/-- A new manager. -/
theorem new : Core .new := by
  have hnone : ∀ fd e, Manager.new.has fd e = false := fun fd e => Mask.has_none
  refine ⟨fun fd e _ => ?_, fun fd e h => ?_, fun fd e h => ?_, by decide, by decide, ?_⟩
  · cases e <;> rfl
  · rw [hnone] at h
    cases h
  · rw [hnone] at h
    cases h
  · rw [Manager.registered, Finset.filter_false_of_mem fun p _ => by rw [hnone]; exact Bool.false_ne_true]
    rfl

/-- A descriptor out of range has nothing registered. -/
theorem has_eq_false (h : Core m) (hfd : m.size ≤ fd) : m.has fd e = false := by
  cases hh : m.has fd e with
  | false => rfl
  | true =>
    have := h.inRange fd e hh
    omega

/-- Above the table's size every context is new. -/
theorem contexts_eq_new (h : Core m) (hfd : m.size ≤ fd) : m.contexts fd = .new := by
  have hget : ∀ e, (m.contexts fd).getEventContext e = .empty := fun e => h.empty fd e (h.has_eq_false hfd)
  have hevent : (m.contexts fd).event = .none := Mask.eq_none_iff.2 fun e => h.has_eq_false hfd
  have hread := hget .read
  have hwrite := hget .write
  generalize m.contexts fd = c at hread hwrite hevent
  obtain ⟨read, write, event⟩ := c
  obtain rfl : read = .empty := hread
  obtain rfl : write = .empty := hwrite
  obtain rfl : event = .none := hevent
  rfl

/-- Under the invariant the registered pairs are all there are. -/
theorem mem_registered (h : Core m) : (fd, e) ∈ m.registered ↔ m.has fd e = true := by
  rw [Manager.mem_registered]
  exact ⟨fun hm => hm.2, fun hh => ⟨h.inRange fd e hh, hh⟩⟩

/-- The registrations decide what is kept. -/
theorem of_same (h : Core m) (hctx : m'.contexts = m.contexts) (hpending : m'.pending = m.pending)
    (hsize : m.size ≤ m'.size) (hle : m'.size ≤ 2 ^ 31) : Core m' := by
  have hhas : ∀ fd e, m'.has fd e = m.has fd e := fun fd e => by rw [Manager.has, hctx, Manager.has]
  have hget : ∀ fd e, m'.ctx fd e = m.ctx fd e := fun fd e => by rw [Manager.ctx, hctx, Manager.ctx]
  have hin : ∀ fd e, m'.has fd e = true → fd < m'.size := by
    intro fd e hh
    rw [hhas] at hh
    exact Nat.lt_of_lt_of_le (h.inRange fd e hh) hsize
  refine ⟨fun fd e hh => ?_, fun fd e hh => ?_, hin, Nat.lt_of_lt_of_le h.size_pos hsize, hle, ?_⟩
  · rw [hget]
    exact h.empty fd e (by rwa [hhas] at hh)
  · rw [hget]
    exact h.filled fd e (by rwa [hhas] at hh)
  · rw [hpending, h.pending]
    congr 1
    ext ⟨fd, e⟩
    rw [h.mem_registered, Manager.mem_registered, hhas]
    exact ⟨fun hh => ⟨hin fd e (by rwa [hhas]), hh⟩, fun hh => hh.2⟩

/-- What epoll watches may change. -/
theorem watch (h : Core m) (hs : Same m m') (mask : Option Mask) : Core (m'.watch fd mask) :=
  h.of_same hs.contexts hs.pending hs.size_le hs.le_size

/-- **One registration more.** -/
theorem register (h : Core m) (hfd : fd < m.size) (hno : m.has fd e = false) {c : EventContext} (hc : c.NonEmpty) :
    Core (m.register fd e c) := by
  refine ⟨fun i x hh => ?_, fun i x hh => ?_, fun i x hh => ?_, h.size_pos, h.size_le, ?_⟩
  · rw [Manager.has_register, Bool.or_eq_false_iff, decide_eq_false_iff_not] at hh
    rw [Manager.ctx_register_ne hh.2]
    exact h.empty i x hh.1
  · by_cases hix : i = fd ∧ x = e
    · rw [hix.1, hix.2, Manager.ctx_register_self]
      exact hc
    · rw [Manager.has_register, decide_eq_false hix, Bool.or_false] at hh
      rw [Manager.ctx_register_ne hix]
      exact h.filled i x hh
  · show i < m.size
    rw [Manager.has_register, Bool.or_eq_true, decide_eq_true_iff] at hh
    rcases hh with hh | hh
    · exact h.inRange i x hh
    · rw [hh.1]
      exact hfd
  · have hset : (m.register fd e c).registered = insert (fd, e) m.registered := by
      ext ⟨i, x⟩
      rw [Manager.mem_registered, Manager.has_register, Finset.mem_insert, h.mem_registered, Bool.or_eq_true,
        decide_eq_true_iff, Prod.mk.injEq]
      constructor
      · rintro ⟨-, hh | hh⟩
        · exact .inr hh
        · exact .inl hh
      · rintro (hh | hh)
        · exact ⟨hh.1 ▸ hfd, .inr hh⟩
        · exact ⟨h.inRange i x hh, .inl hh⟩
    have hnot : (fd, e) ∉ m.registered := by
      rw [h.mem_registered, hno]
      exact Bool.false_ne_true
    have hle := m.card_registered_le
    have hsize := h.size_le
    rw [hset, Finset.card_insert_of_notMem hnot, ← h.pending]
    show (m.pending + 1).toNat = _
    rw [UInt64.toNat_add, h.pending, UInt64.toNat_one]
    exact Nat.mod_eq_of_lt (by omega)

/-- **One registration less.** -/
theorem unregister (h : Core m) (hh : m.has fd e = true) : Core (m.unregister fd e) := by
  have hsub : ∀ i x, (m.unregister fd e).has i x = true → m.has i x = true ∧ ¬ (i = fd ∧ x = e) := by
    intro i x hix
    rw [Manager.has_unregister, Bool.and_eq_true, Bool.not_eq_true', decide_eq_false_iff_not] at hix
    exact hix
  refine ⟨fun i x hix => ?_, fun i x hix => ?_, fun i x hix => h.inRange i x (hsub i x hix).1, h.size_pos, h.size_le,
    ?_⟩
  · by_cases heq : i = fd ∧ x = e
    · rw [heq.1, heq.2]
      exact Manager.ctx_unregister_self
    · rw [Manager.has_unregister, decide_eq_false heq, Bool.not_false, Bool.and_true] at hix
      rw [Manager.ctx_unregister_ne heq]
      exact h.empty i x hix
  · rw [Manager.ctx_unregister_ne (hsub i x hix).2]
    exact h.filled i x (hsub i x hix).1
  · have hset : (m.unregister fd e).registered = m.registered.erase (fd, e) := by
      ext ⟨i, x⟩
      rw [Manager.mem_registered, Finset.mem_erase, h.mem_registered, ne_eq, Prod.mk.injEq]
      constructor
      · rintro ⟨-, hix⟩
        exact ⟨(hsub i x hix).2, (hsub i x hix).1⟩
      · rintro ⟨hne, hix⟩
        refine ⟨h.inRange i x hix, ?_⟩
        rw [Manager.has_unregister, hix, decide_eq_false hne]
        rfl
    have hmem := h.mem_registered.2 hh
    have hpos := Finset.card_pos.2 ⟨_, hmem⟩
    have hlt := m.pending.toNat_lt
    rw [hset, Finset.card_erase_of_mem hmem, ← h.pending]
    show (m.pending - 1).toNat = _
    rw [UInt64.toNat_sub_of_le]
    · rfl
    · rw [UInt64.le_iff_toNat_le, h.pending]
      exact hpos

end Core

/-! ### Firing events -/

namespace Manager

variable {m : Manager} {fd : Nat} {e : Event} {r r' : Result} {es : List Event}

/-- Some events of a descriptor taken off. -/
def unregisterAll (fd : Nat) (es : List Event) (m : Manager) : Manager := es.foldl (fun m e => m.unregister fd e) m

/-- What becomes of a registration that is fired. -/
def handedBy (m : Manager) (fd : Nat) (e : Event) : Effect :=
  .handed (m.ctx fd e).reg (m.ctx fd e).scheduler (m.ctx fd e).work

/-- **An event fired.** -/
theorem fire_eq (hr : r.mgr.aborted = false) : fire fd e r =
    if r.mgr.has fd e then
      if (r.mgr.ctx fd e).scheduler.isSome then
        some ⟨r.ret, r.effects ++ [r.mgr.handedBy fd e], r.mgr.unregister fd e⟩
      else none
    else some ⟨r.ret, r.effects, r.mgr.abort⟩ := by
  have hset : ∀ c, (r.mgr.setContext fd c).aborted = false := fun c => hr
  rw [fire, hr, if_neg Bool.false_ne_true, triggerEvent]
  show Option.map _ (if r.mgr.has fd e = true then
    if (r.mgr.ctx fd e).scheduler.isSome = true then some _ else none else _) = _
  split
  · split
    · rw [Option.map_some]
      dsimp only
      rw [if_neg (by rw [hset]; exact Bool.false_ne_true)]
      rfl
    · rfl
  · rfl

/-- The events fired one after the other. -/
def fireAll (fd : Nat) (es : List Event) (r : Result) : Option Result := es.foldlM (fun r e => fire fd e r) r

/-- The events that meet a test, `READ` first. -/
def eventsWith (test : Event → Bool) : List Event := [Event.read, .write].filter test

/-- The events a test holds of. -/
theorem mem_eventsWith {test : Event → Bool} : e ∈ eventsWith test ↔ test e = true := by
  cases e <;> simp [eventsWith]

/-- None comes twice. -/
theorem eventsWith_nodup (test : Event → Bool) : (eventsWith test).Nodup := by
  refine List.Nodup.filter _ ?_
  decide

/-- The two tests of `process`. -/
theorem fireAll_eventsWith (test : Event → Bool) : fireAll fd (eventsWith test) r =
    (fireIf (test .read) fd .read r).bind fun r => fireIf (test .write) fd .write r := by
  rw [fireAll, eventsWith]
  cases hread : test .read with
  | true =>
    rw [List.filter_cons_of_pos hread, List.foldlM_cons]
    show Option.bind _ _ = Option.bind _ _
    congr 1
    funext r
    cases hwrite : test .write <;> simp [hwrite, fireIf]
  | false =>
    rw [List.filter_cons_of_neg (by rw [hread]; exact Bool.false_ne_true)]
    cases hwrite : test .write <;> simp [hwrite, fireIf]

/-- Nothing is fired after an abort. -/
theorem fireAll_aborted (hr : r.mgr.aborted = true) : fireAll fd es r = some r := by
  induction es with
  | nil => rfl
  | cons e es ih =>
    have hfire : fire fd e r = some r := by rw [fire, if_pos hr]
    rw [fireAll, List.foldlM_cons, hfire]
    exact ih

/-- **Firing several events** takes them all off and hands them out, or aborts at one that is not registered. -/
theorem fireAll_cases (hes : es.Nodup) (hr : r.mgr.aborted = false) (h : fireAll fd es r = some r') :
    ((∀ e ∈ es, r.mgr.has fd e = true) ∧
      r' = ⟨r.ret, r.effects ++ es.map (r.mgr.handedBy fd), r.mgr.unregisterAll fd es⟩) ∨
    ((∃ e ∈ es, r.mgr.has fd e = false) ∧ r'.mgr.aborted = true) := by
  induction es generalizing r with
  | nil =>
    obtain rfl := Option.some.inj h
    exact .inl ⟨fun e he => absurd he List.not_mem_nil, by simp [unregisterAll]⟩
  | cons e es ih =>
    obtain ⟨hnot, hes⟩ := List.nodup_cons.1 hes
    rw [fireAll, List.foldlM_cons, fire_eq hr] at h
    cases hhas : r.mgr.has fd e with
    | false =>
      rw [hhas, if_neg Bool.false_ne_true] at h
      have hrest : fireAll fd es ⟨r.ret, r.effects, r.mgr.abort⟩ = some r' := h
      rw [fireAll_aborted rfl] at hrest
      obtain rfl := Option.some.inj hrest
      exact .inr ⟨⟨e, List.mem_cons_self, hhas⟩, rfl⟩
    | true =>
      rw [hhas, if_pos rfl] at h
      split at h
      · have hrest : fireAll fd es ⟨r.ret, r.effects ++ [r.mgr.handedBy fd e], r.mgr.unregister fd e⟩ = some r' := h
        -- the other events of the descriptor are as before
        have hne : ∀ x ∈ es, ¬ (fd = fd ∧ x = e) := fun x hx heq => hnot (heq.2 ▸ hx)
        have hkeep : ∀ x ∈ es, (r.mgr.unregister fd e).has fd x = r.mgr.has fd x := by
          intro x hx
          rw [has_unregister, decide_eq_false (hne x hx), Bool.not_false, Bool.and_true]
        have hby : es.map ((r.mgr.unregister fd e).handedBy fd) = es.map (r.mgr.handedBy fd) := by
          refine List.map_congr_left fun x hx => ?_
          rw [handedBy, ctx_unregister_ne (hne x hx), handedBy]
        rcases ih (r := ⟨_, _, r.mgr.unregister fd e⟩) hes hr hrest with ⟨hall, rfl⟩ | ⟨⟨x, hx, hxno⟩, hab⟩
        · refine .inl ⟨?_, ?_⟩
          · intro x hx
            rcases List.mem_cons.1 hx with rfl | hx
            · exact hhas
            · rw [← hkeep x hx]
              exact hall x hx
          · dsimp only
            rw [hby, List.append_assoc]
            rfl
        · refine .inr ⟨⟨x, List.mem_cons_of_mem e hx, ?_⟩, hab⟩
          rw [← hkeep x hx]
          exact hxno
      · cases h

/-- The other descriptors' contexts are left. -/
theorem contexts_unregisterAll_ne {i : Nat} (hi : i ≠ fd) : (m.unregisterAll fd es).contexts i = m.contexts i := by
  induction es generalizing m with
  | nil => rfl
  | cons e es ih =>
    show ((m.unregister fd e).unregisterAll fd es).contexts i = m.contexts i
    rw [ih]
    exact Function.update_of_ne hi _ _

/-- The mask without the events that end. -/
theorem event_unregisterAll : ((m.unregisterAll fd es).contexts fd).event = (m.contexts fd).event.without es := by
  induction es generalizing m with
  | nil => exact Mask.ext_has fun x => by simp [unregisterAll]
  | cons e es ih =>
    show (((m.unregister fd e).unregisterAll fd es).contexts fd).event = _
    refine ih.trans (Mask.ext_has fun x => ?_)
    have hone : ((m.unregister fd e).contexts fd).event.has x = _ := has_unregister
    rw [has] at hone
    simp only [Mask.has_without, hone, true_and, List.mem_cons, Bool.decide_or, Bool.not_or, Bool.and_assoc]

/-- What epoll watches is left. -/
theorem unregisterAll_interest : (m.unregisterAll fd es).interest = m.interest := by
  induction es generalizing m with
  | nil => rfl
  | cons e es ih => exact ih (m := m.unregister fd e)

/-- No assertion fails. -/
theorem unregisterAll_aborted : (m.unregisterAll fd es).aborted = m.aborted := by
  induction es generalizing m with
  | nil => rfl
  | cons e es ih => exact ih (m := m.unregister fd e)

end Manager

/-- Several registrations less. -/
theorem Core.unregisterAll {m : Manager} {fd : Nat} {es : List Event} (h : Core m) (hes : es.Nodup)
    (hhas : ∀ e ∈ es, m.has fd e = true) : Core (m.unregisterAll fd es) := by
  induction es generalizing m with
  | nil => exact h
  | cons e es ih =>
    obtain ⟨hnot, hes⟩ := List.nodup_cons.1 hes
    refine ih (h.unregister (hhas e List.mem_cons_self)) hes fun x hx => ?_
    have hne : ¬ (fd = fd ∧ x = e) := fun heq => hnot (heq.2 ▸ hx)
    rw [Manager.has_unregister, hhas x (List.mem_cons_of_mem e hx), decide_eq_false hne]
    rfl

end Io
end Wuchat
