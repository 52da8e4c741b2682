/-
# The history of the timers

`Effect` says once what a call can do to the manager, together with the event its caller sees;
`next_effect` says that every call does one of these, and keeps the manager well-formed.

From the effects follows which timers are in the set, told by the history alone
(`History.mem`): a timer is a member from its `addTimer` until it is cancelled or, when it is
not recurring, until it is collected.
-/

import Mathlib.Algebra.Group.Nat.Defs
import Mathlib.Tactic.Tauto
import Wuchat.Timer.Invariant

namespace Wuchat
namespace Timers

open Foundation

variable {γ : Type}

/-! ### What a call can do -/

/-- Events that leave the timers and the set alone: a call that returned false, a `reset` with nothing to
change, `getNextTimer`, and a caller that lets go of a timer. -/
def Event.Quiet (m : Manager γ) : Event γ → Prop
  | .cancelled _ ret => ret = false
  | .refreshed _ _ ret => ret = false
  | .reset i ms fromNow _ ret => ret = false ∨ (ms = (m.timers i).ms ∧ fromNow = false)
  | .nextTimer _ => True
  | .released _ => True
  | _ => False

/-- The timer taken out and put back with a delay and a time: by `refresh`, or by `reset`. -/
def Event.Rearms (m : Manager γ) (i : Nat) (ms next : UInt64) : Event γ → Prop
  | .refreshed j now ret => j = i ∧ ret = true ∧ ms = (m.timers i).ms ∧ next = now + ms
  | .reset j ms' fromNow now ret => j = i ∧ ret = true ∧ ms' = ms ∧ next = m.startOf i fromNow now + ms
  | _ => False

/-- **What a call can do** to the manager, with the event its caller sees. -/
inductive Effect (m : Manager γ) : Event γ → Manager γ → Prop
  | added (addr : Nat) {ms now : UInt64} {cb : Option (Callback γ)} {recurring : Bool} {m' : Manager γ} :
      m'.count = m.count + 1 → (∀ j, j ∈ m'.set ↔ j = m.count ∨ j ∈ m.set) →
      m'.timers = Function.update m.timers m.count ⟨addr, recurring, ms, now + ms, cb, true⟩ →
      Effect m (.added m.count ms cb recurring now) m'
  | cancelled {i : Nat} {m' : Manager γ} : i ∈ m.set → (m.timers i).cb.isSome → m'.count = m.count →
      (∀ j, j ∈ m'.set ↔ j ∈ m.set ∧ j ≠ i) →
      m'.timers = Function.update m.timers i { m.timers i with cb := none } →
      Effect m (.cancelled i true) m'
  | rearmed {i : Nat} {ms next : UInt64} {e : Event γ} {m' : Manager γ} : e.Rearms m i ms next → i ∈ m.set →
      m'.count = m.count → (∀ j, j ∈ m'.set ↔ j ∈ m.set) →
      m'.timers = Function.update m.timers i { m.timers i with ms, next } → Effect m e m'
  | expired {now : UInt64} {is : List Nat} {m' : Manager γ} : is.Nodup →
      (∀ i ∈ is, i ∈ m.set ∧ (m.timers i).next ≤ now) → m'.count = m.count →
      (∀ j, j ∈ m'.set ↔ j ∈ m.set ∧ (j ∈ is → (m.timers j).recurring = true)) →
      (∀ j, m'.timers j = if j ∈ is then (m.timers j).rearm now else m.timers j) →
      Effect m (.expired now (is.map fun i => (i, (m.timers i).cb))) m'
  | quiet {e : Event γ} {m' : Manager γ} : e.Quiet m → m'.count = m.count → m'.set = m.set →
      (∀ j, m'.timers j = { m.timers j with held := (m'.timers j).held }) → Effect m e m'

/-- A quiet event leaves the manager. -/
theorem effect_quiet_self {m : Manager γ} {e : Event γ} (h : e.Quiet m) : Effect m e m := .quiet h rfl rfl fun _ => rfl

/-! ### Sums that do not wrap -/

/-- The sums a call makes stay below `2^64`. -/
def Call.NoWrap (m : Manager γ) : Call γ → Prop
  | .addTimer _ ms _ _ now => now.toNat + ms.toNat < 2 ^ 64
  | .addConditionTimer _ ms _ _ _ now => now.toNat + ms.toNat < 2 ^ 64
  | .refresh i now => now.toNat + (m.timers i).ms.toNat < 2 ^ 64
  | .reset i ms fromNow now => (m.startOf i fromNow now).toNat + ms.toNat < 2 ^ 64
  | .listExpiredCb now _ => ∀ i ∈ m.set, (m.timers i).recurring = true → now.toNat + (m.timers i).ms.toNat < 2 ^ 64
  | _ => True

/-- The same, read off the event. -/
def Event.NoWrap (m : Manager γ) : Event γ → Prop
  | .added _ ms _ _ now => now.toNat + ms.toNat < 2 ^ 64
  | .refreshed i now _ => now.toNat + (m.timers i).ms.toNat < 2 ^ 64
  | .reset i ms fromNow now _ => (m.startOf i fromNow now).toNat + ms.toNat < 2 ^ 64
  | .expired now _ => ∀ i ∈ m.set, (m.timers i).recurring = true → now.toNat + (m.timers i).ms.toNat < 2 ^ 64
  | _ => True

section

variable {w w' : World γ} {i : Nat}

/-- A held timer is alive. -/
theorem World.Handle.alive (h : w.Handle i) : w.mgr.Alive i := ⟨h.1, .inl h.2⟩

/-- A call on a timer in somebody's hands. -/
theorem next_of_handle {r : Option (Bool × Manager γ)} {e : Bool → Event γ}
    (h : (if w.Handle i then r.map fun r => (⟨r.2, w.log ++ [e r.1]⟩ : World γ) else none) = some w') :
    w.mgr.Alive i ∧ ∃ ret, r = some (ret, w'.mgr) ∧ w'.log = w.log ++ [e ret] := by
  split at h
  · rename_i hheld
    obtain ⟨⟨ret, m'⟩, hr, rfl⟩ := Option.map_eq_some_iff.1 h
    exact ⟨hheld.alive, ret, hr, rfl⟩
  · cases h

/-- What `cancel` of a held timer does. -/
theorem effect_of_cancel (h : WellFormed w.mgr) (hi : w.mgr.Alive i) {ret : Bool} {m' : Manager γ}
    (hr : w.mgr.cancel i = some (ret, m')) : WellFormed m' ∧ Effect w.mgr (.cancelled i ret) m' := by
  rw [h.cancel_eq hi] at hr
  split at hr
  · rename_i hcb
    split at hr
    · rename_i hmem
      cases hr
      refine ⟨h.uncall.without, .cancelled hmem hcb rfl (fun j => ?_) rfl⟩
      exact h.uncall.mem_without
    · cases hr
  · cases hr
    exact ⟨h, effect_quiet_self rfl⟩

/-- What `refresh` of a held timer does. -/
theorem effect_of_refresh (h : WellFormed w.mgr) (hi : w.mgr.Alive i) {now : UInt64} {ret : Bool} {m' : Manager γ}
    (hr : w.mgr.refresh i now = some (ret, m')) : WellFormed m' ∧ Effect w.mgr (.refreshed i now ret) m' := by
  rw [h.refresh_eq hi] at hr
  split at hr
  · rename_i hc
    cases hr
    obtain ⟨hwf, hmem⟩ := h.rekey hc.2 id (now + (w.mgr.timers i).ms) (fun _ => rfl) fun _ => rfl
    refine ⟨hwf, .rearmed ⟨rfl, rfl, rfl, rfl⟩ hc.2 rfl hmem ?_⟩
    funext j
    by_cases hj : j = i
    · rw [hj, rekey_timers_self, Function.update_self]
      rfl
    · rw [rekey_timers_ne hj, Function.update_of_ne hj]
  · cases hr
    exact ⟨h, effect_quiet_self rfl⟩

/-- What `reset` of a held timer does. -/
theorem effect_of_reset (h : WellFormed w.mgr) (hi : w.mgr.Alive i) {ms now : UInt64} {fromNow ret : Bool}
    {m' : Manager γ} (hr : w.mgr.reset i ms fromNow now = some (ret, m')) :
    WellFormed m' ∧ Effect w.mgr (.reset i ms fromNow now ret) m' := by
  obtain ⟨tickled, heq⟩ := h.reset_eq hi ms fromNow now
  rw [heq] at hr
  split at hr
  · rename_i hsame
    cases hr
    exact ⟨h, effect_quiet_self (.inr ⟨hsame.1, by simpa using hsame.2⟩)⟩
  split at hr
  · rename_i hc
    cases hr
    obtain ⟨hwf, hmem⟩ := h.rekey hc.2 (fun t => { t with ms }) (w.mgr.startOf i fromNow now + ms)
      (fun _ => rfl) fun _ => rfl
    refine ⟨hwf.tickled _, .rearmed ⟨rfl, rfl, rfl, rfl⟩ hc.2 rfl hmem ?_⟩
    funext j
    show (w.mgr.rekey i _ _).timers j = _
    by_cases hj : j = i
    · rw [hj, rekey_timers_self, Function.update_self]
    · rw [rekey_timers_ne hj, Function.update_of_ne hj]
  · cases hr
    exact ⟨h, effect_quiet_self (.inl rfl)⟩

/-- What the end of a handle does. -/
theorem effect_of_release {m : Manager γ} (h : WellFormed m) :
    WellFormed (m.release i) ∧ Effect m (.released i) (m.release i) := by
  constructor
  · have hheld : ∀ t : Timer γ, ({ t with held := false } : Timer γ).held = true → t.held = true := by
      intro t ht
      cases ht
    exact h.modify (fun _ => rfl) (fun _ => rfl) hheld
  · refine .quiet trivial rfl rfl fun j => ?_
    rw [Manager.release]
    by_cases hj : j = i
    · rw [hj, modify_timers_self]
    · rw [modify_timers_ne hj]

/-- **Every call does one of these**, and keeps the manager well-formed. -/
theorem next_effect (h : WellFormed w.mgr) {c : Call γ} (hnext : w.next c = some w') :
    WellFormed w'.mgr ∧ ∃ e, w'.log = w.log ++ [e] ∧ Effect w.mgr e w'.mgr ∧ (c.NoWrap w.mgr → e.NoWrap w.mgr) := by
  cases c with
  | addTimer addr ms cb recurring now =>
    obtain ⟨m', hadd, rfl⟩ := Option.map_eq_some_iff.1 hnext
    obtain ⟨hwf, hcount, hmem, htimers⟩ := h.addTimer hadd
    exact ⟨hwf, _, rfl, .added addr hcount hmem htimers, id⟩
  | addConditionTimer addr ms cb cond recurring now =>
    obtain ⟨m', hadd, rfl⟩ := Option.map_eq_some_iff.1 hnext
    obtain ⟨hwf, hcount, hmem, htimers⟩ := h.addTimer hadd
    exact ⟨hwf, _, rfl, .added addr hcount hmem htimers, id⟩
  | cancel i =>
    obtain ⟨hi, ret, hr, hlog⟩ := next_of_handle (e := .cancelled i) hnext
    obtain ⟨hwf, heff⟩ := effect_of_cancel h hi hr
    exact ⟨hwf, _, hlog, heff, id⟩
  | refresh i now =>
    obtain ⟨hi, ret, hr, hlog⟩ := next_of_handle (e := .refreshed i now) hnext
    obtain ⟨hwf, heff⟩ := effect_of_refresh h hi hr
    exact ⟨hwf, _, hlog, heff, id⟩
  | reset i ms fromNow now =>
    obtain ⟨hi, ret, hr, hlog⟩ := next_of_handle (e := .reset i ms fromNow now) hnext
    obtain ⟨hwf, heff⟩ := effect_of_reset h hi hr
    exact ⟨hwf, _, hlog, heff, id⟩
  | listExpiredCb now addr =>
    obtain ⟨r, hr, rfl⟩ := Option.map_eq_some_iff.1 hnext
    rw [Manager.listExpiredCb] at hr
    split at hr
    · obtain rfl := Option.some.inj hr
      obtain ⟨hnodup, hdue⟩ := h.expired now addr
      obtain ⟨hwf, hcount, hmem, htimers⟩ := h.collectAll now hnodup fun i hi => (hdue i hi).1
      exact ⟨hwf, _, rfl, .expired hnodup hdue hcount hmem htimers, id⟩
    · cases hr
  | getNextTimer now =>
    obtain rfl := Option.some.inj hnext
    have hmgr : (w.mgr.getNextTimer now).2 = { w.mgr with tickled := false } := by
      rw [Manager.getNextTimer]
      split <;> rfl
    refine ⟨?_, _, rfl, ?_, id⟩
    · dsimp only
      rw [hmgr]
      exact h.tickled false
    · dsimp only
      rw [hmgr]
      exact .quiet trivial rfl rfl fun _ => rfl
  | release i =>
    rw [World.next] at hnext
    split at hnext
    · obtain rfl := Option.some.inj hnext
      obtain ⟨hwf, heff⟩ := effect_of_release h (i := i)
      exact ⟨hwf, _, rfl, heff, id⟩
    · cases hnext

end

/-! ### What the history says -/

/-- The event adds the timer. -/
def Event.Adds (i : Nat) (recurring : Bool) : Event γ → Prop
  | .added j _ _ recurring' _ => j = i ∧ recurring' = recurring
  | _ => False

/-- The event adds the timer with an empty function. -/
def Event.AddsHollow (i : Nat) : Event γ → Prop
  | .added j _ cb _ _ => j = i ∧ cb = none
  | _ => False

/-- The event is a `cancel` of the timer that returned true. -/
def Event.Cancels (i : Nat) : Event γ → Prop
  | .cancelled j ret => j = i ∧ ret = true
  | _ => False

/-- The event hands out the callback of the timer. -/
def Event.Collects (i : Nat) : Event γ → Prop
  | .expired _ cbs => i ∈ cbs.map Prod.fst
  | _ => False

section

variable (log : List (Event γ)) (i : Nat)

/-- The timer was added. -/
def Added (recurring : Bool) : Prop := ∃ e ∈ log, e.Adds i recurring

/-- The timer was added with an empty function. -/
def Hollow : Prop := ∃ e ∈ log, e.AddsHollow i

/-- A `cancel` of the timer returned true. -/
def Cancelled : Prop := ∃ e ∈ log, e.Cancels i

/-- The callback of the timer was handed out. -/
def Collected : Prop := ∃ e ∈ log, e.Collects i

end

/-- What some event has, behind one more. -/
theorem exists_mem_snoc {ε : Type*} {P : ε → Prop} {log : List ε} {e : ε} :
    (∃ x ∈ log ++ [e], P x) ↔ (∃ x ∈ log, P x) ∨ P e := by
  constructor
  · rintro ⟨x, hx, hP⟩
    rcases List.mem_append.1 hx with hx | hx
    · exact .inl ⟨x, hx, hP⟩
    · exact .inr (List.mem_singleton.1 hx ▸ hP)
  · rintro (⟨x, hx, hP⟩ | hP)
    · exact ⟨x, List.mem_append_left _ hx, hP⟩
    · exact ⟨e, List.mem_append_right _ (List.mem_singleton_self e), hP⟩

section

variable {log : List (Event γ)} {e : Event γ} {i : Nat}

/-- What was added behind one more event. -/
theorem added_snoc {r : Bool} : Added (log ++ [e]) i r ↔ Added log i r ∨ e.Adds i r := exists_mem_snoc

/-- What was added without a callback behind one more event. -/
theorem hollow_snoc : Hollow (log ++ [e]) i ↔ Hollow log i ∨ e.AddsHollow i := exists_mem_snoc

/-- What was cancelled behind one more event. -/
theorem cancelled_snoc : Cancelled (log ++ [e]) i ↔ Cancelled log i ∨ e.Cancels i := exists_mem_snoc

/-- What was collected behind one more event. -/
theorem collected_snoc : Collected (log ++ [e]) i ↔ Collected log i ∨ e.Collects i := exists_mem_snoc

end

/-- The event adds, cancels and collects nothing. -/
def Event.Silent (e : Event γ) : Prop :=
  (∀ i r, ¬ e.Adds i r) ∧ (∀ i, ¬ e.AddsHollow i) ∧ (∀ i, ¬ e.Cancels i) ∧ ∀ i, ¬ e.Collects i

/-- A quiet event neither adds nor ends a timer. -/
theorem Event.Quiet.silent {m : Manager γ} {e : Event γ} (h : e.Quiet m) : e.Silent := by
  cases e with
  | added i ms cb recurring now => exact h.elim
  | cancelled i ret =>
    obtain rfl : ret = false := h
    exact ⟨fun _ _ => id, fun _ => id, fun _ h => Bool.noConfusion h.2, fun _ => id⟩
  | refreshed i now ret => exact ⟨fun _ _ => id, fun _ => id, fun _ => id, fun _ => id⟩
  | reset i ms fromNow now ret => exact ⟨fun _ _ => id, fun _ => id, fun _ => id, fun _ => id⟩
  | expired now cbs => exact h.elim
  | nextTimer ret => exact ⟨fun _ _ => id, fun _ => id, fun _ => id, fun _ => id⟩
  | released i => exact ⟨fun _ _ => id, fun _ => id, fun _ => id, fun _ => id⟩

/-- Nor does an event that sets a timer anew. -/
theorem Event.Rearms.silent {m : Manager γ} {e : Event γ} {i : Nat} {ms next : UInt64} (h : e.Rearms m i ms next) :
    e.Silent := by
  cases e with
  | added i ms cb recurring now => exact h.elim
  | cancelled i ret => exact h.elim
  | refreshed i now ret => exact ⟨fun _ _ => id, fun _ => id, fun _ => id, fun _ => id⟩
  | reset i ms fromNow now ret => exact ⟨fun _ _ => id, fun _ => id, fun _ => id, fun _ => id⟩
  | expired now cbs => exact h.elim
  | nextTimer ret => exact h.elim
  | released i => exact h.elim

/-- **What the history says of the manager.** -/
structure History (w : World γ) : Prop where
  wf : WellFormed w.mgr
  added : ∀ i r, Added w.log i r ↔ i < w.mgr.count ∧ (w.mgr.timers i).recurring = r
  ended : ∀ i, Cancelled w.log i ∨ Collected w.log i ∨ Hollow w.log i → i < w.mgr.count
  mem : ∀ i < w.mgr.count,
    i ∈ w.mgr.set ↔ ¬ Cancelled w.log i ∧ ¬ ((w.mgr.timers i).recurring = false ∧ Collected w.log i)
  cb : ∀ i < w.mgr.count, (w.mgr.timers i).cb = none ↔ Hollow w.log i ∨ Cancelled w.log i
  apart : ∀ i, Cancelled w.log i → (w.mgr.timers i).recurring = false → ¬ Collected w.log i

/-- Nothing has happened yet. -/
theorem history_init : History (⟨.new, []⟩ : World γ) where
  wf := wellFormed_new
  added i r := by simp [Added, Manager.new]
  ended i h := by simp [Cancelled, Collected, Hollow] at h
  mem i hi := absurd hi (Nat.not_lt_zero i)
  cb i hi := absurd hi (Nat.not_lt_zero i)
  apart i hc := by simp [Cancelled] at hc

section

variable {w w' : World γ} {e : Event γ}

/-- An event that adds, cancels and collects nothing keeps what the history says, when it keeps the members, the
callbacks and who is recurring. -/
theorem History.silent (h : History w) (hwf : WellFormed w'.mgr) (hlog : w'.log = w.log ++ [e]) (he : e.Silent)
    (hcount : w'.mgr.count = w.mgr.count) (hmem : ∀ j, j ∈ w'.mgr.set ↔ j ∈ w.mgr.set)
    (hcb : ∀ j, (w'.mgr.timers j).cb = (w.mgr.timers j).cb)
    (hrec : ∀ j, (w'.mgr.timers j).recurring = (w.mgr.timers j).recurring) : History w' := by
  obtain ⟨hadds, hhollow, hcancels, hcollects⟩ := he
  have hadded : ∀ i r, Added w'.log i r ↔ Added w.log i r := fun i r => by
    rw [hlog, added_snoc, or_iff_left (hadds i r)]
  have hhollow' : ∀ i, Hollow w'.log i ↔ Hollow w.log i := fun i => by
    rw [hlog, hollow_snoc, or_iff_left (hhollow i)]
  have hcancelled : ∀ i, Cancelled w'.log i ↔ Cancelled w.log i := fun i => by
    rw [hlog, cancelled_snoc, or_iff_left (hcancels i)]
  have hcollected : ∀ i, Collected w'.log i ↔ Collected w.log i := fun i => by
    rw [hlog, collected_snoc, or_iff_left (hcollects i)]
  refine ⟨hwf, fun i r => ?_, fun i => ?_, fun i => ?_, fun i => ?_, fun i => ?_⟩
  · rw [hadded, hcount, hrec, h.added]
  · rw [hcancelled, hcollected, hhollow', hcount]
    exact h.ended i
  · rw [hcount, hmem, hcancelled, hrec, hcollected]
    exact h.mem i
  · rw [hcount, hcb, hhollow', hcancelled]
    exact h.cb i
  · rw [hcancelled, hrec, hcollected]
    exact h.apart i

/-- A timer added. -/
theorem History.added_step (h : History w) {addr : Nat} {ms now : UInt64} {cb : Option (Callback γ)}
    {recurring : Bool} (hwf : WellFormed w'.mgr) (hlog : w'.log = w.log ++ [.added w.mgr.count ms cb recurring now])
    (hcount : w'.mgr.count = w.mgr.count + 1) (hmem : ∀ j, j ∈ w'.mgr.set ↔ j = w.mgr.count ∨ j ∈ w.mgr.set)
    (htimers : w'.mgr.timers = Function.update w.mgr.timers w.mgr.count ⟨addr, recurring, ms, now + ms, cb, true⟩) :
    History w' := by
  have hadded : ∀ i r, Added w'.log i r ↔ Added w.log i r ∨ (w.mgr.count = i ∧ recurring = r) := fun i r => by
    rw [hlog, added_snoc]
    rfl
  have hhollow : ∀ i, Hollow w'.log i ↔ Hollow w.log i ∨ (w.mgr.count = i ∧ cb = none) := fun i => by
    rw [hlog, hollow_snoc]
    rfl
  have hcancelled : ∀ i, Cancelled w'.log i ↔ Cancelled w.log i := fun i => by
    rw [hlog, cancelled_snoc]
    exact or_iff_left id
  have hcollected : ∀ i, Collected w'.log i ↔ Collected w.log i := fun i => by
    rw [hlog, collected_snoc]
    exact or_iff_left id
  have hnew : w'.mgr.timers w.mgr.count = ⟨addr, recurring, ms, now + ms, cb, true⟩ := by
    rw [htimers, Function.update_self]
  have hold : ∀ j, j ≠ w.mgr.count → w'.mgr.timers j = w.mgr.timers j := fun j hj => by
    rw [htimers, Function.update_of_ne hj]
  -- the new number was not used before
  have hfresh : ¬ Cancelled w.log w.mgr.count ∧ ¬ Collected w.log w.mgr.count ∧ ¬ Hollow w.log w.mgr.count :=
    ⟨fun hc => Nat.lt_irrefl _ (h.ended _ (.inl hc)), fun hc => Nat.lt_irrefl _ (h.ended _ (.inr (.inl hc))),
      fun hc => Nat.lt_irrefl _ (h.ended _ (.inr (.inr hc)))⟩
  have hlt : ∀ j, j < w.mgr.count + 1 → j ≠ w.mgr.count → j < w.mgr.count := fun j hj hne =>
    Nat.lt_of_le_of_ne (Nat.le_of_lt_succ hj) hne
  refine ⟨hwf, fun i r => ?_, fun i => ?_, fun i hi => ?_, fun i hi => ?_, fun i hc hr => ?_⟩
  · rw [hadded, hcount, h.added]
    by_cases hi : i = w.mgr.count
    · subst hi
      rw [hnew]
      simp
    · rw [hold i hi]
      constructor
      · rintro (⟨hi', hr⟩ | ⟨rfl, -⟩)
        · exact ⟨Nat.lt_succ_of_lt hi', hr⟩
        · exact absurd rfl hi
      · rintro ⟨hi', hr⟩
        exact .inl ⟨hlt i hi' hi, hr⟩
  · rw [hcancelled, hcollected, hhollow, hcount]
    rintro (hc | hc | hc | ⟨rfl, -⟩)
    · exact Nat.lt_succ_of_lt (h.ended i (.inl hc))
    · exact Nat.lt_succ_of_lt (h.ended i (.inr (.inl hc)))
    · exact Nat.lt_succ_of_lt (h.ended i (.inr (.inr hc)))
    · exact Nat.lt_succ_self _
  · rw [hcount] at hi
    rw [hmem, hcancelled, hcollected]
    by_cases heq : i = w.mgr.count
    · subst heq
      simp [hfresh.1, hfresh.2.1]
    · rw [hold i heq, or_iff_right heq]
      exact h.mem i (hlt i hi heq)
  · rw [hcount] at hi
    rw [hhollow, hcancelled]
    by_cases heq : i = w.mgr.count
    · subst heq
      rw [hnew]
      simp [hfresh.1, hfresh.2.2]
    · rw [hold i heq, h.cb i (hlt i hi heq)]
      simp [Ne.symm heq]
  · rw [hcancelled] at hc
    have hne : i ≠ w.mgr.count := fun heq => hfresh.1 (heq ▸ hc)
    rw [hold i hne] at hr
    rw [hcollected]
    exact h.apart i hc hr

/-- A timer cancelled. -/
theorem History.cancelled_step (h : History w) {i : Nat} (hwf : WellFormed w'.mgr)
    (hlog : w'.log = w.log ++ [.cancelled i true]) (hi : i ∈ w.mgr.set) (hcount : w'.mgr.count = w.mgr.count)
    (hmem : ∀ j, j ∈ w'.mgr.set ↔ j ∈ w.mgr.set ∧ j ≠ i)
    (htimers : w'.mgr.timers = Function.update w.mgr.timers i { w.mgr.timers i with cb := none }) : History w' := by
  have hadded : ∀ j r, Added w'.log j r ↔ Added w.log j r := fun j r => by
    rw [hlog, added_snoc]
    exact or_iff_left id
  have hhollow : ∀ j, Hollow w'.log j ↔ Hollow w.log j := fun j => by
    rw [hlog, hollow_snoc]
    exact or_iff_left id
  have hcancelled : ∀ j, Cancelled w'.log j ↔ Cancelled w.log j ∨ i = j := fun j => by
    rw [hlog, cancelled_snoc]
    simp only [Event.Cancels, and_true]
  have hcollected : ∀ j, Collected w'.log j ↔ Collected w.log j := fun j => by
    rw [hlog, collected_snoc]
    exact or_iff_left id
  have hrec : ∀ j, (w'.mgr.timers j).recurring = (w.mgr.timers j).recurring := fun j => by
    by_cases hj : j = i
    · rw [htimers, hj, Function.update_self]
    · rw [htimers, Function.update_of_ne hj]
  refine ⟨hwf, fun j r => ?_, fun j => ?_, fun j hj => ?_, fun j hj => ?_, fun j hc hr => ?_⟩
  · rw [hadded, hcount, hrec, h.added]
  · rw [hcancelled, hcollected, hhollow, hcount]
    rintro ((hc | rfl) | hc)
    · exact h.ended j (.inl hc)
    · exact h.wf.known i hi
    · exact h.ended j (.inr hc)
  · rw [hcount] at hj
    rw [hmem, hcancelled, hcollected, hrec, h.mem j hj]
    constructor
    · rintro ⟨⟨hc, hcol⟩, hne⟩
      exact ⟨fun hor => hor.elim hc fun heq => hne heq.symm, hcol⟩
    · rintro ⟨hc, hcol⟩
      exact ⟨⟨fun hcan => hc (.inl hcan), hcol⟩, fun heq => hc (.inr heq.symm)⟩
  · rw [hcount] at hj
    rw [hhollow, hcancelled, htimers]
    by_cases heq : j = i
    · subst heq
      simp
    · rw [Function.update_of_ne heq, h.cb j hj]
      simp [Ne.symm heq]
  · rw [hrec] at hr
    rw [hcollected]
    rcases (hcancelled j).1 hc with hc | rfl
    · exact h.apart j hc hr
    · -- a timer in the set was not collected
      exact fun hcol => ((h.mem i (h.wf.known i hi)).1 hi).2 ⟨hr, hcol⟩

/-- Timers collected. -/
theorem History.expired_step (h : History w) {now : UInt64} {is : List Nat} (hwf : WellFormed w'.mgr)
    (hlog : w'.log = w.log ++ [.expired now (is.map fun i => (i, (w.mgr.timers i).cb))])
    (hdue : ∀ i ∈ is, i ∈ w.mgr.set ∧ (w.mgr.timers i).next ≤ now) (hcount : w'.mgr.count = w.mgr.count)
    (hmem : ∀ j, j ∈ w'.mgr.set ↔ j ∈ w.mgr.set ∧ (j ∈ is → (w.mgr.timers j).recurring = true))
    (htimers : ∀ j, w'.mgr.timers j = if j ∈ is then (w.mgr.timers j).rearm now else w.mgr.timers j) : History w' := by
  have hadded : ∀ j r, Added w'.log j r ↔ Added w.log j r := fun j r => by
    rw [hlog, added_snoc]
    exact or_iff_left id
  have hhollow : ∀ j, Hollow w'.log j ↔ Hollow w.log j := fun j => by
    rw [hlog, hollow_snoc]
    exact or_iff_left id
  have hcancelled : ∀ j, Cancelled w'.log j ↔ Cancelled w.log j := fun j => by
    rw [hlog, cancelled_snoc]
    exact or_iff_left id
  have hcollected : ∀ j, Collected w'.log j ↔ Collected w.log j ∨ j ∈ is := fun j => by
    rw [hlog, collected_snoc]
    simp [Event.Collects]
  have hrec : ∀ j, (w'.mgr.timers j).recurring = (w.mgr.timers j).recurring := fun j => by
    rw [htimers]
    split
    · exact rearm_recurring _ _
    · rfl
  have hcb : ∀ j, (w'.mgr.timers j).cb = (w.mgr.timers j).cb := fun j => by
    rw [htimers]
    split
    · rw [Timer.rearm]
      split <;> rfl
    · rfl
  refine ⟨hwf, fun j r => ?_, fun j => ?_, fun j hj => ?_, fun j hj => ?_, fun j hc hr => ?_⟩
  · rw [hadded, hcount, hrec, h.added]
  · rw [hcancelled, hcollected, hhollow, hcount]
    rintro (hc | (hc | hj) | hc)
    · exact h.ended j (.inl hc)
    · exact h.ended j (.inr (.inl hc))
    · exact h.wf.known j (hdue j hj).1
    · exact h.ended j (.inr (.inr hc))
  · rw [hcount] at hj
    rw [hmem, hcancelled, hcollected, hrec, h.mem j hj]
    cases hr : (w.mgr.timers j).recurring with
    | true => simp
    | false =>
      simp only [true_and, Bool.false_eq_true, not_or]
      tauto
  · rw [hcount] at hj
    rw [hcb, hhollow, hcancelled]
    exact h.cb j hj
  · rw [hrec] at hr
    rw [hcancelled] at hc
    rw [hcollected]
    rintro (hcol | hj)
    · exact h.apart j hc hr hcol
    · -- a timer in the set was not cancelled
      have hmem' := (hdue j hj).1
      exact ((h.mem j (h.wf.known j hmem')).1 hmem').1 hc

/-- **Every call keeps what the history says.** -/
theorem History.step (h : History w) {c : Call γ} (hnext : w.next c = some w') : History w' := by
  obtain ⟨hwf, e, hlog, heff, -⟩ := next_effect h.wf hnext
  generalize hm : w'.mgr = m' at heff
  cases heff with
  | added addr hcount hmem htimers =>
    subst hm
    exact h.added_step hwf hlog hcount hmem htimers
  | cancelled hi _ hcount hmem htimers =>
    subst hm
    exact h.cancelled_step hwf hlog hi hcount hmem htimers
  | @rearmed i _ _ _ _ harms hi hcount hmem htimers =>
    subst hm
    refine h.silent hwf hlog harms.silent hcount hmem (fun j => ?_) fun j => ?_
    · by_cases hj : j = i
      · rw [htimers, hj, Function.update_self]
      · rw [htimers, Function.update_of_ne hj]
    · by_cases hj : j = i
      · rw [htimers, hj, Function.update_self]
      · rw [htimers, Function.update_of_ne hj]
  | expired hnodup hdue hcount hmem htimers =>
    subst hm
    exact h.expired_step hwf hlog hdue hcount hmem htimers
  | quiet hquiet hcount hset htimers =>
    subst hm
    exact h.silent hwf hlog hquiet.silent hcount (fun j => by rw [hset]) (fun j => by rw [htimers]) fun j => by
      rw [htimers]

end

/-- **Every run keeps what the history says.** -/
theorem history_of_run {ok : World γ → Call γ → Prop} {calls : List (Call γ)} {w : World γ}
    (hrun : (system : System (World γ) (Call γ)).Run ok calls w) : History w :=
  hrun.invariant (I := fun _ w => History w) history_init fun _ _ _ _ h _ hnext => h.step hnext

end Timers
end Wuchat
