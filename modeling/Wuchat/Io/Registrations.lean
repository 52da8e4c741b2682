/-
# Registrations over whole runs

Two results about the runs of the IO manager.  In a run whose `addEvent` calls are for events that
are not registered yet, the manager is consistent (`Consistent`) exactly as long as no item of
`epoll_wait` is handled that reports an event still registered together with one that was
taken off since (`consistent_iff`).  `stale_item_aborts` is a run with such an item.

As long as no assertion fails, a registration ends at most once (`registrations_end_once`): in a
`delEvent`, which drops it, or in a step that hands its callback or its fiber to the scheduler of
the registration.  What has not ended is what the contexts hold.
-/

import Wuchat.Io.Outcome

namespace Wuchat
namespace Io

open Foundation

/-! ### Consistency -/

/-- The counter counts the registered pairs, a context is not empty exactly when its event is registered, epoll
watches for what is registered, and no assertion has failed. -/
structure Consistent (m : Manager) : Prop where
  pending : m.pending.toNat = m.registered.card
  registered : ∀ fd e, (fd, e) ∈ m.registered ↔ m.has fd e = true
  context : ∀ fd e, (m.ctx fd e).NonEmpty ↔ m.has fd e = true
  interest : ∀ fd, m.interest fd = (m.contexts fd).event.interest
  aborted : m.aborted = false

/-- A well-formed manager is consistent. -/
theorem WellFormed.consistent {m : Manager} (h : WellFormed m) : Consistent m := by
  refine ⟨h.pending, fun fd e => h.mem_registered, fun fd e => ⟨fun hc => ?_, h.filled fd e⟩, h.interest, h.aborted⟩
  cases hh : m.has fd e with
  | true => rfl
  | false =>
    rw [h.empty fd e hh] at hc
    exact absurd hc (by decide)

/-- A new manager is well formed. -/
theorem wellFormed_new : WellFormed .new := ⟨Core.new, fun _ => rfl, rfl⟩

/-- A step from a state that has not aborted. -/
theorem next_call {w w' : World} {c : Call} (h : w.next c = some w') : w.mgr.aborted = false ∧
    ∃ r, w.mgr.call c = some r ∧ w' = ⟨r.mgr, w.log ++ [⟨c, r.ret, r.effects⟩]⟩ := by
  rw [World.next] at h
  split at h
  · cases h
  · rename_i hab
    obtain ⟨r, hr, rfl⟩ := Option.map_eq_some_iff.1 h
    exact ⟨Bool.not_eq_true _ ▸ hab, r, hr, rfl⟩

/-- **Before an abort all is well**, and every call was sound. -/
theorem run_wellFormed {calls : List Call} {w : World} (hrun : system.Run anyStep calls w) :
    w.mgr.aborted = false → WellFormed w.mgr ∧ system.Run (fun w c => c.Sound w.mgr) calls w := by
  refine hrun.invariant (I := fun calls w => w.mgr.aborted = false →
    WellFormed w.mgr ∧ system.Run (fun w c => c.Sound w.mgr) calls w) ?_ ?_
  · exact fun _ => ⟨wellFormed_new, .start⟩
  · intro calls u c v ih _ hnext hab
    obtain ⟨hu, r, hr, rfl⟩ := next_call hnext
    obtain ⟨hwf, hsound⟩ := ih hu
    rcases hwf.call_outcome hr with ⟨hc, hout⟩ | ⟨-, habort⟩
    · exact ⟨hwf.outcome hout, hsound.step hc hnext⟩
    · exact Bool.noConfusion (hab.symm.trans habort)

/-- A run of sound calls does not abort. -/
theorem sound_run_wellFormed {calls : List Call} {w : World}
    (hrun : system.Run (fun w c => c.Sound w.mgr) calls w) : WellFormed w.mgr := by
  refine hrun.invariant (I := fun _ w => WellFormed w.mgr) wellFormed_new ?_
  intro _ u c v hwf hc hnext
  obtain ⟨-, r, hr, rfl⟩ := next_call hnext
  rcases hwf.call_outcome hr with ⟨-, hout⟩ | ⟨hno, -⟩
  · exact hwf.outcome hout
  · exact absurd hc hno

/-- **The manager is consistent exactly while no item is half stale.**  For every run of calls by any threads,
whatever epoll answers, whose `addEvent` calls are for events not registered yet: its state is consistent
iff every item handled with a successful `epoll_ctl` reported only events registered when its turn
came, or none of them. -/
theorem consistent_iff {calls : List Call} {w : World}
    (hrun : system.Run (fun w c => c.Unregistered w.mgr) calls w) :
    Consistent w.mgr ↔ system.Run (fun w c => c.Intact w.mgr) calls w := by
  constructor
  · intro h
    have hsound := (run_wellFormed (hrun.mono fun _ _ _ => trivial) h.aborted).2
    exact hsound.mono fun _ _ hc => hc.2
  · intro h
    obtain ⟨-, hsound⟩ := hrun.and h
    exact (sound_run_wellFormed hsound).consistent

/-- Whether an item is fresh can be computed. -/
instance (item : Item) (event : Mask) : Decidable (item.Fresh event) :=
  decidable_of_iff (item.events.diff event = .none) (by
    rw [Mask.eq_none_iff]
    refine forall_congr' fun e => ?_
    rw [Mask.has_diff]
    cases item.events.has e <;> cases event.has e <;> simp)

/-- Whether an item is dead can be computed. -/
instance (item : Item) (event : Mask) : Decidable (item.Dead event) :=
  decidable_of_iff (event.inter (item.realEvents event) = .none) Item.dead_iff.symm

/-- Whether a call's event is free can be computed. -/
instance (m : Manager) : (c : Call) → Decidable (c.Unregistered m)
  | .addEvent fd e _ _ _ _ => inferInstanceAs (Decidable (m.has fd e = false))
  | .delEvent _ _ _ => .isTrue trivial
  | .cancelEvent _ _ _ => .isTrue trivial
  | .cancelAll _ _ => .isTrue trivial
  | .wait _ _ => .isTrue trivial
  | .process _ _ => .isTrue trivial

/-- Whether a call's items can be handled can be computed. -/
instance (m : Manager) : (c : Call) → Decidable (c.Intact m)
  | .addEvent _ _ _ _ _ _ => .isTrue trivial
  | .delEvent _ _ _ => .isTrue trivial
  | .cancelEvent _ _ _ => .isTrue trivial
  | .cancelAll _ _ => .isTrue trivial
  | .wait _ _ => .isTrue trivial
  | .process thread ok => inferInstanceAs (Decidable (ok = true → ∀ item ∈ (m.items thread).head?,
      item.Fresh (m.contexts item.fd).event ∨ item.Dead (m.contexts item.fd).event))

/-- Whether a call is sound can be computed. -/
instance (m : Manager) (c : Call) : Decidable (c.Sound m) := inferInstanceAs (Decidable (_ ∧ _))

/-- Two threads have an item of the same descriptor; the second one is stale altogether when its turn comes. -/
def twoThreads : List Call :=
  [.addEvent 5 .read (some 0) 1 none true, .addEvent 5 .write (some 0) 2 (some 7) true,
    .wait 0 [⟨5, ⟨true, true⟩, false⟩], .wait 1 [⟨5, ⟨true, false⟩, false⟩], .process 0 true, .process 1 true]

/-- That run is consistent to its end. -/
theorem consistent_iff_twoThreads : ∃ w, system.Run (fun w c => c.Unregistered w.mgr) twoThreads w ∧
    system.Run (fun w c => c.Intact w.mgr) twoThreads w ∧ Consistent w.mgr := by
  have hsome : (system.exec (fun w c => decide (c.Sound w.mgr)) system.init twoThreads).isSome = true := by
    decide
  obtain ⟨w, hw⟩ := Option.isSome_iff_exists.1 hsome
  have hsound : system.Run (fun w c => c.Sound w.mgr) twoThreads w :=
    System.run_of_exec (fun _ _ => of_decide_eq_true) hw
  have hrun : system.Run (fun w c => c.Unregistered w.mgr) twoThreads w := hsound.mono fun _ _ hc => hc.1
  have hintact : system.Run (fun w c => c.Intact w.mgr) twoThreads w := hsound.mono fun _ _ hc => hc.2
  exact ⟨w, hrun, hintact, (consistent_iff hrun).2 hintact⟩

/-- The read of a descriptor is cancelled after `epoll_wait` has reported both events and before the item is
handled. -/
def staleItem : List Call :=
  [.addEvent 5 .read (some 0) 1 none true, .addEvent 5 .write (some 0) 2 none true,
    .wait 0 [⟨5, ⟨true, true⟩, false⟩], .cancelEvent 5 .read true, .process 0 true]

/-- **A half stale item aborts the program**: `triggerEvent` is called for the event that was cancelled, and its
assertion fails. -/
theorem stale_item_aborts : ∃ w, system.Run (fun w c => c.Unregistered w.mgr) staleItem w ∧
    w.mgr.aborted = true ∧ ¬ Consistent w.mgr := by
  have hsome : (system.exec (fun w c => decide (c.Unregistered w.mgr)) system.init staleItem).isSome = true := by
    decide
  obtain ⟨w, hw⟩ := Option.isSome_iff_exists.1 hsome
  have hab : (system.exec (fun w c => decide (c.Unregistered w.mgr)) system.init staleItem).all
      (fun w => w.mgr.aborted) = true := by decide
  rw [hw] at hab
  have hab : w.mgr.aborted = true := hab
  refine ⟨w, System.run_of_exec (fun _ _ => of_decide_eq_true) hw, hab, fun h => ?_⟩
  exact Bool.noConfusion (hab.symm.trans h.aborted)

/-! ### Registrations end once -/

/-- The registration an effect is about. -/
def Effect.reg : Effect → Nat
  | .added r _ _ _ _ => r
  | .dropped r => r
  | .handed r _ _ => r

/-- The effect ends a registration. -/
def Effect.Ends (r : Nat) : Effect → Prop
  | .added _ _ _ _ _ => False
  | .dropped r' => r' = r
  | .handed r' _ _ => r' = r

/-- The registration has ended. -/
def Ended (hist : List Effect) (r : Nat) : Prop := ∃ x ∈ hist, x.Ends r

/-- What is asked of an effect, given those before it: a registration is new, and one that ends was made before
and has not ended; what is handed out is what was registered, to the scheduler of the registration. -/
def Due (before : List Effect) : Effect → Prop
  | .added r _ _ _ _ => ∀ x ∈ before, x.reg ≠ r
  | .dropped r => (∃ fd e scheduler work, .added r fd e scheduler work ∈ before) ∧ ¬ Ended before r
  | .handed r scheduler work => (∃ fd e, .added r fd e scheduler work ∈ before) ∧ ¬ Ended before r

/-- The context of a descriptor and an event holds a registration. -/
def Manager.Holds (m : Manager) (fd : Nat) (e : Event) (r : Nat) (scheduler : Option Nat) (work : Work) : Prop :=
  m.has fd e = true ∧ (m.ctx fd e).reg = r ∧ (m.ctx fd e).scheduler = scheduler ∧ (m.ctx fd e).work = work

/-- What `addEvent` registers: the callback, or else the fiber it is called from. -/
def workOf (fiber : Nat) : Option Nat → Work
  | some f => .cb f
  | none => .fiber (some fiber)

/-- The effects of a step are those of its call; a step that returns false has none. -/
def Step.Explained (hist : List Effect) (step : Step) : Prop :=
  (step.ret = false → step.effects = []) ∧
  match step.call with
  | .addEvent fd e scheduler fiber cb _ =>
    step.ret = true → ∃ r, step.effects = [.added r fd e scheduler (workOf fiber cb)]
  | .delEvent fd e _ =>
    step.ret = true → ∃ r scheduler work, .added r fd e scheduler work ∈ hist ∧ step.effects = [.dropped r]
  | .cancelEvent fd e _ =>
    step.ret = true → ∃ r scheduler work, .added r fd e scheduler work ∈ hist ∧
      step.effects = [.handed r scheduler work]
  | .cancelAll fd _ =>
    ∀ x ∈ step.effects, ∃ r e scheduler work, .added r fd e scheduler work ∈ hist ∧ x = .handed r scheduler work
  | .wait _ _ => step.effects = []
  | .process _ _ =>
    ∀ x ∈ step.effects, ∃ r fd e scheduler work, .added r fd e scheduler work ∈ hist ∧ x = .handed r scheduler work

/-- What the history says about the contexts: they hold the registrations that have not ended. -/
structure History (hist : List Effect) (m : Manager) : Prop where
  known : ∀ x ∈ hist, x.reg < m.count
  unique : ∀ {r fd e scheduler work fd' e' scheduler' work'}, .added r fd e scheduler work ∈ hist →
    .added r fd' e' scheduler' work' ∈ hist → fd = fd' ∧ e = e'
  held : ∀ {r fd e scheduler work}, (.added r fd e scheduler work ∈ hist ∧ ¬ Ended hist r) ↔
    m.Holds fd e r scheduler work

/-- What has ended behind one more effect. -/
theorem ended_snoc {hist : List Effect} {x : Effect} {r : Nat} : Ended (hist ++ [x]) r ↔ Ended hist r ∨ x.Ends r := by
  simp only [Ended, List.mem_append, List.mem_singleton, or_and_right, exists_or, exists_eq_left]

/-- An effect ends the registration it names. -/
theorem Effect.Ends.reg_eq {x : Effect} {r : Nat} (h : x.Ends r) : x.reg = r := by
  cases x with
  | added _ _ _ _ _ => exact h.elim
  | dropped _ => exact h
  | handed _ _ _ => exact h

/-- What a call does to the registration of a context when it ends it. -/
def EventContext.Ending (c : EventContext) (x : Effect) : Prop :=
  x = .dropped c.reg ∨ x = .handed c.reg c.scheduler c.work

/-- The effect that ends a context ends its registration. -/
theorem EventContext.Ending.ends {c : EventContext} {x : Effect} (h : c.Ending x) : x.Ends c.reg := by
  rcases h with rfl | rfl
  · exact rfl
  · exact rfl

/-- Such an effect is due while the registration lasts. -/
theorem EventContext.Ending.due {c : EventContext} {x : Effect} {hist : List Effect} {fd : Nat} {e : Event}
    (h : c.Ending x) (hadd : .added c.reg fd e c.scheduler c.work ∈ hist ∧ ¬ Ended hist c.reg) : Due hist x := by
  rcases h with rfl | rfl
  · exact ⟨⟨fd, e, c.scheduler, c.work, hadd.1⟩, hadd.2⟩
  · exact ⟨⟨fd, e, hadd.1⟩, hadd.2⟩

/-- A call ends a context with one of its effects. -/
theorem Call.ending_of_ctx (c : Call) (ctx : EventContext) : ctx.Ending (c.ending ctx) := by
  cases c with
  | delEvent fd e ok => exact .inl rfl
  | _ => exact .inr rfl

/-- The work a new context holds. -/
theorem newContext_work (scheduler : Option Nat) (fiber : Nat) (cb : Option Nat) (r : Nat) :
    (newContext scheduler fiber cb r).work = workOf fiber cb := by
  cases cb <;> rfl

namespace History

variable {hist : List Effect} {m m' : Manager} {fd : Nat} {e : Event}

/-- Nothing has happened yet. -/
theorem new : History [] .new := by
  refine ⟨fun x hx => absurd hx List.not_mem_nil, fun h => absurd h List.not_mem_nil, fun {r fd e s work} => ?_⟩
  constructor
  · rintro ⟨h, -⟩
    exact absurd h List.not_mem_nil
  · rintro ⟨h, -⟩
    cases e <;> cases h

/-- A step without a registration or an end adds nothing. -/
theorem same (h : History hist m) (hctx : m'.contexts = m.contexts) (hcount : m'.count = m.count) :
    History hist m' := by
  refine ⟨fun x hx => hcount ▸ h.known x hx, h.unique, fun {r fd e s work} => ?_⟩
  rw [Manager.Holds, Manager.has, Manager.ctx, hctx]
  exact h.held

/-- **A registration made.** -/
theorem added (h : History hist m) (hno : m.has fd e = false) {c : EventContext} (hc : c.reg = m.count) :
    History (hist ++ [.added m.count fd e c.scheduler c.work]) (m.register fd e c) := by
  have hnew : ∀ {fd' e' s work}, Effect.added m.count fd' e' s work ∉ hist :=
    fun hx => Nat.lt_irrefl _ (h.known _ hx)
  have hopen : ¬ Ended hist m.count := by
    rintro ⟨x, hx, hr⟩
    have := h.known x hx
    rw [hr.reg_eq] at this
    exact Nat.lt_irrefl _ this
  refine ⟨fun x hx => ?_, fun {r fd₁ e₁ s₁ w₁ fd₂ e₂ s₂ w₂} h₁ h₂ => ?_, fun {r i x s work} => ?_⟩
  · show x.reg < m.count + 1
    rcases List.mem_append.1 hx with hx | hx
    · exact Nat.lt_succ_of_lt (h.known x hx)
    · rw [List.mem_singleton.1 hx]
      exact Nat.lt_succ_self _
  · simp only [List.mem_append, List.mem_singleton, Effect.added.injEq] at h₁ h₂
    rcases h₁ with h₁ | ⟨rfl, rfl, rfl, -, -⟩
    · rcases h₂ with h₂ | ⟨rfl, -⟩
      · exact h.unique h₁ h₂
      · exact absurd h₁ hnew
    · rcases h₂ with h₂ | ⟨-, rfl, rfl, -⟩
      · exact absurd h₂ hnew
      · exact ⟨rfl, rfl⟩
  · rw [ended_snoc, List.mem_append, List.mem_singleton, Effect.added.injEq, Manager.Holds, Manager.has_register]
    have hends : ¬ (Effect.added m.count fd e c.scheduler c.work).Ends r := id
    by_cases hix : i = fd ∧ x = e
    · obtain ⟨rfl, rfl⟩ := hix
      rw [Manager.ctx_register_self, decide_eq_true ⟨rfl, rfl⟩, Bool.or_true]
      constructor
      · rintro ⟨hadd | ⟨rfl, -, -, rfl, rfl⟩, hend⟩
        · have hold := (h.held.1 ⟨hadd, fun hx => hend (.inl hx)⟩).1
          rw [hno] at hold
          cases hold
        · exact ⟨rfl, hc, rfl, rfl⟩
      · rintro ⟨-, rfl, rfl, rfl⟩
        rw [hc]
        exact ⟨.inr ⟨rfl, rfl, rfl, rfl, rfl⟩, fun hx => hx.elim hopen id⟩
    · rw [Manager.ctx_register_ne hix, decide_eq_false hix, Bool.or_false]
      refine Iff.trans ?_ h.held
      constructor
      · rintro ⟨hadd | ⟨-, rfl, rfl, -, -⟩, hend⟩
        · exact ⟨hadd, fun hx => hend (.inl hx)⟩
        · exact absurd ⟨rfl, rfl⟩ hix
      · rintro ⟨hadd, hend⟩
        exact ⟨.inl hadd, fun hx => hx.elim hend hends⟩

/-- What a registered context holds was registered, and has not ended. -/
theorem of_has (h : History hist m) (hh : m.has fd e = true) :
    .added (m.ctx fd e).reg fd e (m.ctx fd e).scheduler (m.ctx fd e).work ∈ hist ∧ ¬ Ended hist (m.ctx fd e).reg :=
  h.held.2 ⟨hh, rfl, rfl, rfl⟩

/-- **A registration ended.** -/
theorem ended (h : History hist m) (hh : m.has fd e = true) {x : Effect} (hx : x.Ends (m.ctx fd e).reg) :
    History (hist ++ [x]) (m.unregister fd e) := by
  obtain ⟨hadd, -⟩ := h.of_has hh
  have hnot : ∀ {r fd' e' s work}, Effect.added r fd' e' s work ≠ x := by
    rintro r fd' e' s work rfl
    exact hx
  have hmem : ∀ {r fd' e' s work}, Effect.added r fd' e' s work ∈ hist ++ [x] ↔
      Effect.added r fd' e' s work ∈ hist := by
    intro r fd' e' s work
    rw [List.mem_append, List.mem_singleton]
    exact or_iff_left hnot
  refine ⟨fun y hy => ?_, fun h₁ h₂ => h.unique (hmem.1 h₁) (hmem.1 h₂), fun {r i y s work} => ?_⟩
  · show y.reg < m.count
    rcases List.mem_append.1 hy with hy | hy
    · exact h.known y hy
    · rw [List.mem_singleton.1 hy, hx.reg_eq]
      exact h.known _ hadd
  · rw [hmem, ended_snoc, Manager.Holds, Manager.has_unregister]
    by_cases hiy : i = fd ∧ y = e
    · obtain ⟨rfl, rfl⟩ := hiy
      rw [decide_eq_true ⟨rfl, rfl⟩, Bool.not_true, Bool.and_false]
      constructor
      · rintro ⟨hr, hend⟩
        obtain ⟨-, hreg, -⟩ := h.held.1 ⟨hr, fun hx => hend (.inl hx)⟩
        exact absurd (.inr (hreg ▸ hx)) hend
      · rintro ⟨hf, -⟩
        cases hf
    · rw [Manager.ctx_unregister_ne hiy, decide_eq_false hiy, Bool.not_false, Bool.and_true]
      refine Iff.trans ?_ h.held
      constructor
      · rintro ⟨hr, hend⟩
        exact ⟨hr, fun hx => hend (.inl hx)⟩
      · rintro ⟨hr, hend⟩
        refine ⟨hr, fun hx' => hx'.elim hend fun hxr => hiy ?_⟩
        -- a registration is on one descriptor and for one event
        have heq : r = (m.ctx fd e).reg := hxr.reg_eq.symm.trans hx.reg_eq
        subst heq
        exact h.unique hr hadd

/-- Several registrations of a descriptor ended. -/
theorem endedAll {es : List Event} (h : History hist m) (hdue : Along Due hist) (hes : es.Nodup)
    (hhas : ∀ e ∈ es, m.has fd e = true) {f : Event → Effect} (hf : ∀ e ∈ es, (m.ctx fd e).Ending (f e)) :
    History (hist ++ es.map f) (m.unregisterAll fd es) ∧ Along Due (hist ++ es.map f) := by
  induction es generalizing hist m with
  | nil =>
    rw [List.map_nil, List.append_nil]
    exact ⟨h, hdue⟩
  | cons e es ih =>
    obtain ⟨hnot, hes⟩ := List.nodup_cons.1 hes
    have hh := hhas e List.mem_cons_self
    have hend := hf e List.mem_cons_self
    have hne : ∀ x ∈ es, ¬ (fd = fd ∧ x = e) := fun x hx heq => hnot (heq.2 ▸ hx)
    rw [List.map_cons, List.append_cons]
    refine ih (h.ended hh hend.ends) (hdue.snoc (hend.due (h.of_has hh))) hes (fun x hx => ?_) fun x hx => ?_
    · rw [Manager.has_unregister, hhas x (List.mem_cons_of_mem e hx), decide_eq_false (hne x hx)]
      rfl
    · rw [Manager.ctx_unregister_ne (hne x hx)]
      exact hf x (List.mem_cons_of_mem e hx)

/-- **What a call does to the history.** -/
theorem outcome (h : History hist m) (hdue : Along Due hist) {c : Call} {r : Result} (ho : Outcome m c r) :
    History (hist ++ r.effects) r.mgr ∧ Along Due (hist ++ r.effects) ∧
      Step.Explained (hist ++ r.effects) ⟨c, r.ret, r.effects⟩ := by
  cases ho with
  | @same c ret m' hs hwait =>
    rw [List.append_nil]
    refine ⟨h.same hs.contexts hs.count, hdue, fun _ => rfl, ?_⟩
    have hno : ret = true → (∀ thread items, c ≠ .wait thread items) → False := by
      intro hret hc
      obtain ⟨thread, items, rfl⟩ := hwait hret
      exact hc thread items rfl
    cases c with
    | addEvent fd e scheduler fiber cb ok => exact fun hret => (hno hret fun _ _ => nofun).elim
    | delEvent fd e ok => exact fun hret => (hno hret fun _ _ => nofun).elim
    | cancelEvent fd e ok => exact fun hret => (hno hret fun _ _ => nofun).elim
    | cancelAll fd ok => exact fun x hx => absurd hx List.not_mem_nil
    | wait thread items => rfl
    | process thread ok => exact fun x hx => absurd hx List.not_mem_nil
  | @added fd e scheduler fiber cb m' hs hfd hno =>
    have h' : History hist (m'.watch fd (some ((m.contexts fd).event.add e))) := h.same hs.contexts hs.count
    have hadd := h'.added (hs.has_watch.trans hno) (c := newContext scheduler fiber cb m.count) hs.count.symm
    rw [show (m'.watch fd (some ((m.contexts fd).event.add e))).count = m.count from hs.count] at hadd
    refine ⟨hadd, hdue.snoc fun x hx => Nat.ne_of_lt (h.known x hx), fun hret => Bool.noConfusion hret, fun _ => ?_⟩
    rw [newContext_work]
    exact ⟨m.count, rfl⟩
  | @ended c fd es m' hends hes hhas hs =>
    have h' : History hist (m'.watch fd ((m.contexts fd).event.without es).interest) := h.same hs.contexts hs.count
    have hend : ∀ e ∈ es, ((m'.watch fd ((m.contexts fd).event.without es).interest).ctx fd e).Ending
        (c.ending (m.ctx fd e)) := by
      intro e _
      rw [hs.ctx_watch]
      exact c.ending_of_ctx _
    obtain ⟨hhist, halong⟩ := h'.endedAll hdue hes (fun e he => hs.has_watch.trans (hhas e he)) hend
    have hreg : ∀ e ∈ es, .added (m.ctx fd e).reg fd e (m.ctx fd e).scheduler (m.ctx fd e).work ∈
        hist ++ es.map fun e => c.ending (m.ctx fd e) :=
      fun e he => List.mem_append_left _ (h.of_has (hhas e he)).1
    refine ⟨hhist, halong, fun hret => Bool.noConfusion hret, ?_⟩
    cases c with
    | addEvent fd e scheduler fiber cb ok => exact hends.elim
    | delEvent i e ok =>
      obtain ⟨rfl, rfl⟩ := hends
      exact fun _ => ⟨_, _, _, hreg e (List.mem_singleton_self e), rfl⟩
    | cancelEvent i e ok =>
      obtain ⟨rfl, rfl⟩ := hends
      exact fun _ => ⟨_, _, _, hreg e (List.mem_singleton_self e), rfl⟩
    | cancelAll i ok =>
      obtain ⟨rfl, -⟩ := hends
      intro x hx
      obtain ⟨e, he, rfl⟩ := List.mem_map.1 hx
      exact ⟨_, e, _, _, hreg e he, rfl⟩
    | wait thread items => exact hends.elim
    | process thread ok =>
      intro x hx
      obtain ⟨e, he, rfl⟩ := List.mem_map.1 hx
      exact ⟨_, fd, e, _, _, hreg e he, rfl⟩

end History

/-- What explains a step goes on explaining it. -/
theorem Step.Explained.mono {hist more : List Effect} {step : Step} (h : step.Explained hist) :
    step.Explained (hist ++ more) := by
  obtain ⟨c, ret, effects⟩ := step
  refine ⟨h.1, ?_⟩
  have h := h.2
  cases c with
  | addEvent fd e scheduler fiber cb ok => exact h
  | delEvent fd e ok =>
    intro hret
    obtain ⟨r, s, work, hadd, heff⟩ := h hret
    exact ⟨r, s, work, List.mem_append_left _ hadd, heff⟩
  | cancelEvent fd e ok =>
    intro hret
    obtain ⟨r, s, work, hadd, heff⟩ := h hret
    exact ⟨r, s, work, List.mem_append_left _ hadd, heff⟩
  | cancelAll fd ok =>
    intro x hx
    obtain ⟨r, e, s, work, hadd, heff⟩ := h x hx
    exact ⟨r, e, s, work, List.mem_append_left _ hadd, heff⟩
  | wait thread items => exact h
  | process thread ok =>
    intro x hx
    obtain ⟨r, fd, e, s, work, hadd, heff⟩ := h x hx
    exact ⟨r, fd, e, s, work, List.mem_append_left _ hadd, heff⟩

/-- The history of every run that has not aborted. -/
theorem history_of_run {calls : List Call} {w : World} (hrun : system.Run anyStep calls w) :
    w.mgr.aborted = false → WellFormed w.mgr ∧ History w.history w.mgr ∧ Along Due w.history ∧
      ∀ step ∈ w.log, step.Explained w.history := by
  refine hrun.invariant (I := fun _ w => w.mgr.aborted = false → WellFormed w.mgr ∧ History w.history w.mgr ∧
    Along Due w.history ∧ ∀ step ∈ w.log, step.Explained w.history) ?_ ?_
  · exact fun _ => ⟨wellFormed_new, .new, .nil, fun step hstep => absurd hstep List.not_mem_nil⟩
  · intro _ u c v ih _ hnext hab
    obtain ⟨hu, r, hr, rfl⟩ := next_call hnext
    obtain ⟨hwf, hhist, hdue, hexp⟩ := ih hu
    rcases hwf.call_outcome hr with ⟨-, hout⟩ | ⟨-, habort⟩
    · obtain ⟨hhist', hdue', hexp'⟩ := hhist.outcome hdue hout
      have hlog : (⟨r.mgr, u.log ++ [⟨c, r.ret, r.effects⟩]⟩ : World).history = u.history ++ r.effects := by
        rw [World.history, World.history, List.flatMap_append, List.flatMap_singleton]
      rw [hlog]
      refine ⟨hwf.outcome hout, hhist', hdue', fun step hstep => ?_⟩
      rcases List.mem_append.1 hstep with hstep | hstep
      · exact (hexp step hstep).mono
      · rw [List.mem_singleton.1 hstep]
        exact hexp'
    · exact Bool.noConfusion (hab.symm.trans habort)

/-- The `epoll_ctl` of the call fails. -/
def Call.Refused : Call → Prop
  | .addEvent _ _ _ _ _ ok => ok = false
  | .delEvent _ _ ok => ok = false
  | .cancelEvent _ _ ok => ok = false
  | .cancelAll _ ok => ok = false
  | .wait _ _ => False
  | .process _ ok => ok = false

/-- A refused `epoll_ctl` changes nothing. -/
theorem epollCtl_refused (m : Manager) (op : Op) (fd : Nat) (mask : Mask) : m.epollCtl op fd mask false = none := by
  unfold Manager.epollCtl
  exact if_neg Bool.false_ne_true

/-- A call whose `epoll_ctl` fails returns false. -/
theorem ret_of_refused {m : Manager} {c : Call} {r : Result} (hc : c.Refused) (hr : m.call c = some r) :
    r.ret = false := by
  cases c with
  | addEvent fd e scheduler fiber cb ok =>
    obtain rfl : ok = false := hc
    obtain ⟨m₁, -, rfl⟩ := Option.map_eq_some_iff.1 hr
    dsimp only
    rw [epollCtl_refused]
    split <;> rfl
  | delEvent fd e ok =>
    obtain rfl : ok = false := hc
    obtain rfl := Option.some.inj hr
    simp only [Manager.delEvent, epollCtl_refused, ite_self]
  | cancelEvent fd e ok =>
    obtain rfl : ok = false := hc
    simp only [Manager.call, Manager.cancelEvent, epollCtl_refused, ite_self] at hr
    exact Option.some.inj hr ▸ rfl
  | cancelAll fd ok =>
    obtain rfl : ok = false := hc
    simp only [Manager.call, Manager.cancelAll, epollCtl_refused, ite_self] at hr
    exact Option.some.inj hr ▸ rfl
  | wait thread items => exact hc.elim
  | process thread ok =>
    obtain rfl : ok = false := hc
    rw [Manager.call, Manager.processNext] at hr
    split at hr
    · cases hr
    · simp only [Manager.process, epollCtl_refused, ite_self] at hr
      exact Option.some.inj hr ▸ rfl

/-- **Registrations end once.**  For every run of calls by any threads, whatever epoll answers and however stale the
items are, in which no assertion has failed: what is dropped or handed out was registered before and
had not ended before, and what is handed out is what was registered, to the scheduler of the registration;
`delEvent` drops, and the other three hand out, the registrations of their own descriptor; those that
have not ended are exactly the ones the contexts hold; and a call that returns false or whose
`epoll_ctl` fails has no effect on any of them. -/
theorem registrations_end_once {calls : List Call} {w : World} (hrun : system.Run anyStep calls w)
    (hab : w.mgr.aborted = false) :
    (∀ pre x post, w.history = pre ++ x :: post → Due pre x) ∧
    (∀ step ∈ w.log, step.Explained w.history) ∧
    (∀ r fd e scheduler work, (.added r fd e scheduler work ∈ w.history ∧ ¬ Ended w.history r) ↔
      w.mgr.Holds fd e r scheduler work) ∧
    ∀ c r, w.mgr.call c = some r → r.mgr.aborted = false → r.ret = false ∨ c.Refused →
      r.effects = [] ∧ r.mgr.contexts = w.mgr.contexts := by
  obtain ⟨hwf, hhist, hdue, hexp⟩ := history_of_run hrun hab
  refine ⟨fun pre x post heq => hdue.at heq, hexp, fun _ _ _ _ _ => hhist.held, fun c r hr hab' hfalse => ?_⟩
  have hret : r.ret = false := hfalse.elim id fun hc => ret_of_refused hc hr
  rcases hwf.call_outcome hr with ⟨-, hout⟩ | ⟨-, habort⟩
  · cases hout with
    | same hs _ => exact ⟨rfl, hs.contexts⟩
    | added _ _ _ => cases hret
    | ended _ _ _ _ => cases hret
  · exact Bool.noConfusion (hab'.symm.trans habort)

/-- A registration of each kind of end: one is dropped, one is cancelled, one is reported; a second `delEvent`
returns false. -/
def threeEnds : List Call :=
  [.addEvent 5 .read (some 0) 1 none true, .addEvent 5 .write (some 0) 2 (some 7) true,
    .addEvent 6 .read (some 0) 3 none true, .wait 0 [⟨5, ⟨true, false⟩, false⟩], .delEvent 6 .read true,
    .cancelEvent 5 .write true, .process 0 true, .delEvent 6 .read true]

/-- What became of the registrations before the last one ended. -/
def threeEndsHistory : List Effect :=
  [.added 0 5 .read (some 0) (.fiber (some 1)), .added 1 5 .write (some 0) (.cb 7),
    .added 2 6 .read (some 0) (.fiber (some 3)), .dropped 2, .handed 1 (some 0) (.cb 7)]

/-- In that run the fiber that waited for the read is handed out, and had not been before. -/
theorem registrations_end_once_threeEnds : ∃ w, system.Run anyStep threeEnds w ∧ w.mgr.aborted = false ∧
    w.history = threeEndsHistory ++ .handed 0 (some 0) (.fiber (some 1)) :: [] ∧
    ¬ Ended threeEndsHistory 0 := by
  have hsome : (system.exec (fun _ _ => true) system.init threeEnds).isSome = true := by decide
  obtain ⟨w, hw⟩ := Option.isSome_iff_exists.1 hsome
  have hend : (system.exec (fun _ _ => true) system.init threeEnds).all (fun w => decide (w.mgr.aborted = false ∧
      w.history = threeEndsHistory ++ .handed 0 (some 0) (.fiber (some 1)) :: [])) = true := by decide
  rw [hw] at hend
  obtain ⟨hab, hhist⟩ := of_decide_eq_true hend
  have hrun : system.Run anyStep threeEnds w := System.run_of_exec (fun _ _ _ => trivial) hw
  exact ⟨w, hrun, hab, hhist, ((registrations_end_once hrun hab).1 _ _ _ hhist).2⟩

end Io
end Wuchat
