/-
# Configuration variables and their listeners

`config.h`: `ConfigVar::setValue` compares the new value with the old one and calls the
listeners under the read lock, and assigns the new value under the write lock.  `fromString`
converts a text first.  Several threads hold the read lock at a time, so every call of a
listener is a step of its own; the write lock is taken when no thread holds the read lock.

A listener that throws ends the call: `fromString` catches the exception, `setValue` passes
it on, and both give up the lock without an assignment.  The log lists the calls of the
listeners and the assignments.

The statics of the HTTP parser and the connect timeout are mirrors that only a listener
writes (`HttpInit`, `HookInit`), so a mirror is what its listener was told last (`mirror`).
While the calls that change the value do not overlap and no listener throws, the listeners
are told what is assigned (`listeners_told`) and the mirrors agree with the variable
(`mirror_eq`).  Two overlapping calls leave them apart (`overlapping_calls`).
-/

import Mathlib.Data.List.Basic
import Wuchat.Foundation.System

namespace Wuchat
namespace Config

open Foundation

variable {α : Type}

/-- Where a thread is in `setValue`: not in it, under the read lock with the listeners still to
call, or between the two locks. -/
inductive Place (α : Type)
  | idle
  | notifying (val : α) (rest : List Nat)
  | assigning (val : α)
  deriving DecidableEq, Repr

/-- The thread holds the read lock. -/
def Place.reads : Place α → Bool
  | .notifying _ _ => true
  | _ => false

/-- What happened: a listener was called, or the variable was assigned. -/
inductive Event (α : Type)
  | called (listener : Nat) (old new : α)
  | assigned (new : α)
  deriving DecidableEq, Repr

/-- `ConfigVar`: `m_val`, with the threads and the log. -/
structure ConfigVar (α : Type) where
  val : α
  threads : List (Place α)
  log : List (Event α)

/-- The steps of the threads. -/
inductive Move (α : Type)
  | setValue (thread : Nat) (val : α)
  | fromString (thread : Nat) (text : String)
  | notify (thread : Nat) (throws : Bool)
  | unlock (thread : Nat)
  | assign (thread : Nat)
  deriving DecidableEq, Repr

namespace ConfigVar

variable (s : ConfigVar α)

/-- A thread goes on. -/
def go (thread : Nat) (place : Place α) : ConfigVar α :=
  { s with threads := s.threads.set thread place }

/-- No thread is in a call. -/
def Quiet : Prop := ∀ place ∈ s.threads, place = .idle

/-- The comparison of `setValue(val)`, with the listeners in the order of their keys. -/
def compare [DecidableEq α] (listeners : List Nat) (thread : Nat) (val : α) : ConfigVar α :=
  if val = s.val then s else s.go thread (.notifying val listeners)

/-- The state after a step; `fromStr` converts a text or throws. -/
def next [DecidableEq α] (fromStr : String → Option α) (listeners : List Nat) :
    Move α → Option (ConfigVar α)
  | .setValue thread val =>
      if s.threads[thread]? = some .idle then some (s.compare listeners thread val) else none
  | .fromString thread text =>
    if s.threads[thread]? = some .idle then
      match fromStr text with
      | none => some s
      | some val => some (s.compare listeners thread val)
    else none
  | .notify thread throws =>
    match s.threads[thread]? with
    | some (.notifying val (l :: rest)) =>
      some { s.go thread (if throws then .idle else .notifying val rest) with
        log := s.log ++ [.called l s.val val] }
    | _ => none
  | .unlock thread =>
    match s.threads[thread]? with
    | some (.notifying val []) => some (s.go thread (.assigning val))
    | _ => none
  | .assign thread =>
    match s.threads[thread]? with
    | some (.assigning val) =>
      if s.threads.any Place.reads then none
      else some { s.go thread .idle with val := val, log := s.log ++ [.assigned val] }
    | _ => none

end ConfigVar

/-- The variable as a system, with `n` threads. -/
def system [DecidableEq α] (fromStr : String → Option α) (listeners : List Nat) (n : Nat) (dflt : α) :
    System (ConfigVar α) (Move α) where
  init := ⟨dflt, List.replicate n .idle, []⟩
  next s := s.next fromStr listeners

/-! ### What the log says -/

/-- The value a listener was told last. -/
def told (l : Nat) (log : List (Event α)) : Option α :=
  log.foldl (fun v e => match e with
    | .called l' _ new => if l' = l then some new else v
    | .assigned _ => v) none

/-- The value installed by a log. -/
def installed (dflt : α) (log : List (Event α)) : α :=
  log.foldl (fun v e => match e with
    | .called _ _ _ => v
    | .assigned new => new) dflt

/-- A mirror of the variable, which its listener writes. -/
def mirror (dflt : α) (l : Nat) (log : List (Event α)) : α := (told l log).getD dflt

/-- The old value of a listener call is the value installed before it, and the next assignment
installs its new value. -/
def Proper (dflt : α) (pre : List (Event α)) : Event α → Prop
  | .called _ old _ => installed dflt pre = old
  | .assigned new => ∀ pre' mid l old new', pre = pre' ++ .called l old new' :: mid →
      (∀ v, .assigned v ∉ mid) →
      new' = new

section

variable {dflt : α} {log : List (Event α)} {l l' : Nat} {old new : α}

/-- What a listener was told behind one more call. -/
theorem told_called :
    told l (log ++ [.called l' old new]) = if l' = l then some new else told l log := by
  rw [told, List.foldl_append]
  rfl

/-- An assignment tells no listener. -/
theorem told_assigned : told l (log ++ [.assigned new]) = told l log := by
  rw [told, List.foldl_append]
  rfl

/-- A call assigns nothing. -/
theorem installed_called : installed dflt (log ++ [.called l old new]) = installed dflt log := by
  rw [installed, List.foldl_append]
  rfl

/-- An assignment is what is installed behind it. -/
theorem installed_assigned : installed dflt (log ++ [.assigned new]) = new := by
  rw [installed, List.foldl_append]
  rfl

end

/-- A call that changes the value begins while no other one is in progress, and no listener throws.
-/
def Move.Alone [DecidableEq α] (fromStr : String → Option α) (s : ConfigVar α) : Move α → Prop
  | .setValue _ val => val = s.val ∨ s.Quiet
  | .fromString _ text => fromStr text = none ∨ fromStr text = some s.val ∨ s.Quiet
  | .notify _ throws => throws = false
  | _ => True

/-! ### What calls that do not overlap keep -/

/-- What the log says while the listeners in `done` were told of the value `new` and no assignment
has followed: the others know the value of the variable, and the calls since the last assignment
were for `new`. -/
structure Agrees (listeners : List Nat) (dflt : α) (s : ConfigVar α) (done : List Nat) (new : α) :
    Prop where
  mirror : ∀ l ∈ listeners, mirror dflt l s.log = if l ∈ done then new else s.val
  others : ∀ l, l ∉ listeners → told l s.log = none
  installed : installed dflt s.log = s.val
  proper : Along (Proper dflt) s.log
  pending : ∀ pre mid l old new', s.log = pre ++ .called l old new' :: mid →
    (∀ v, .assigned v ∉ mid) →
    l ∈ done ∧ new' = new

section

variable {listeners done : List Nat} {dflt new : α} {s t : ConfigVar α} {l : Nat}

/-- Only the value and the log matter. -/
theorem Agrees.congr (h : Agrees listeners dflt s done new) (hval : t.val = s.val)
    (hlog : t.log = s.log) :
    Agrees listeners dflt t done new := by
  obtain ⟨hmirror, hothers, hinst, hproper, hpending⟩ := h
  rw [← hval] at hmirror hinst
  rw [← hlog] at hmirror hothers hinst hproper hpending
  exact ⟨hmirror, hothers, hinst, hproper, hpending⟩

/-- Nobody was told of a new value yet. -/
theorem Agrees.begin (h : Agrees listeners dflt s [] new) (new' : α) :
    Agrees listeners dflt s [] new' where
  mirror l hl := h.mirror l hl
  others := h.others
  installed := h.installed
  proper := h.proper
  pending pre mid l old new₀ hlog hmid :=
    absurd (h.pending pre mid l old new₀ hlog hmid).1 List.not_mem_nil

/-- **A listener is told of the new value.** -/
theorem Agrees.called (h : Agrees listeners dflt s done new) (hl : l ∈ listeners)
    (hval : t.val = s.val)
    (hlog : t.log = s.log ++ [.called l s.val new]) : Agrees listeners dflt t (done ++ [l]) new := by
  constructor
  · intro l' hl'
    rw [Config.mirror, hlog, told_called, hval]
    split
    · rename_i heq
      rw [if_pos (by rw [heq]; exact List.mem_append_right _ (List.mem_singleton_self _)),
        Option.getD_some]
    · rename_i hne
      have hmem : l' ∈ done ++ [l] ↔ l' ∈ done := by
        rw [List.mem_append, List.mem_singleton, or_iff_left (Ne.symm hne)]
      simp only [hmem]
      exact h.mirror l' hl'
  · intro l' hl'
    rw [hlog, told_called, if_neg]
    · exact h.others l' hl'
    · rintro rfl
      exact hl' hl
  · rw [hlog, installed_called, hval]
    exact h.installed
  · rw [hlog]
    exact h.proper.snoc h.installed
  · intro pre mid l' old new' hsplit hmid
    rcases snoc_eq_append_cons (hlog.symm.trans hsplit) with ⟨-, he, -⟩ | ⟨mid', rfl, hold⟩
    · obtain ⟨rfl, -, rfl⟩ := Event.called.inj he
      exact ⟨List.mem_append_right _ (List.mem_singleton_self _), rfl⟩
    · obtain ⟨hdone, heq⟩ := h.pending pre mid' l' old new' hold fun v hv =>
        hmid v (List.mem_append_left _ hv)
      exact ⟨List.mem_append_left _ hdone, heq⟩

/-- **The new value is assigned when all listeners were told of it.** -/
theorem Agrees.assigned (h : Agrees listeners dflt s listeners new) (hval : t.val = new)
    (hlog : t.log = s.log ++ [.assigned new]) : Agrees listeners dflt t [] new := by
  constructor
  · intro l hl
    rw [Config.mirror, hlog, told_assigned, if_neg List.not_mem_nil, hval]
    exact (h.mirror l hl).trans (if_pos hl)
  · intro l hl
    rw [hlog, told_assigned]
    exact h.others l hl
  · rw [hlog, installed_assigned, hval]
  · rw [hlog]
    refine h.proper.snoc fun pre mid l old new' hsplit hmid => ?_
    exact (h.pending pre mid l old new' hsplit hmid).2
  · intro pre mid l old new' hsplit hmid
    rcases snoc_eq_append_cons (hlog.symm.trans hsplit) with ⟨-, he, -⟩ | ⟨mid', rfl, -⟩
    · cases he
    · exact absurd (List.mem_append_right _ (List.mem_singleton_self _)) (hmid new)

/-- How far the only call in progress is, if there is one: the listeners that were told, and the new
value. -/
inductive Stage (listeners : List Nat) (s : ConfigVar α) : List Nat → α → Prop
  | quiet (new : α) (h : s.Quiet) : Stage listeners s [] new
  | notifying {thread : Nat} {done rest : List Nat} {new : α}
      (h : s.threads[thread]? = some (.notifying new rest))
      (hothers : ∀ i place, s.threads[i]? = some place → i ≠ thread → place = .idle)
      (hlist : listeners = done ++ rest) : Stage listeners s done new
  | assigning {thread : Nat} {new : α} (h : s.threads[thread]? = some (.assigning new))
      (hothers : ∀ i place, s.threads[i]? = some place → i ≠ thread → place = .idle) :
        Stage listeners s listeners new

/-- A thread in a call is the only one. -/
theorem Stage.notifying_inv {thread : Nat} {rest : List Nat} {val : α}
    (h : Stage listeners s done new)
    (hplace : s.threads[thread]? = some (.notifying val rest)) :
    val = new ∧ listeners = done ++ rest ∧ ∀ i place, s.threads[i]? = some place → i ≠ thread →
      place = .idle := by
  cases h with
  | quiet _ h => cases h _ (List.mem_of_getElem? hplace)
  | @notifying thread' _ _ _ h hothers hlist =>
    by_cases heq : thread = thread'
    · subst heq
      obtain ⟨rfl, rfl⟩ := Place.notifying.inj (Option.some.inj (hplace.symm.trans h))
      exact ⟨rfl, hlist, hothers⟩
    · cases hothers _ _ hplace heq
  | @assigning thread' _ h hothers =>
    by_cases heq : thread = thread'
    · subst heq
      cases Option.some.inj (hplace.symm.trans h)
    · cases hothers _ _ hplace heq

/-- A thread that assigns is alone, and every listener has been called. -/
theorem Stage.assigning_inv {thread : Nat} {val : α} (h : Stage listeners s done new)
    (hplace : s.threads[thread]? = some (.assigning val)) :
    val = new ∧ done = listeners ∧ ∀ i place, s.threads[i]? = some place → i ≠ thread →
      place = .idle := by
  cases h with
  | quiet _ h => cases h _ (List.mem_of_getElem? hplace)
  | @notifying thread' _ _ _ h hothers _ =>
    by_cases heq : thread = thread'
    · subst heq
      cases Option.some.inj (hplace.symm.trans h)
    · cases hothers _ _ hplace heq
  | @assigning thread' _ h hothers =>
    by_cases heq : thread = thread'
    · subst heq
      exact ⟨Place.assigning.inj (Option.some.inj (hplace.symm.trans h)), rfl, hothers⟩
    · cases hothers _ _ hplace heq

/-- The other threads stay where they are. -/
theorem others_go {thread : Nat} {place : Place α}
    (h : ∀ i p, s.threads[i]? = some p → i ≠ thread → p = .idle) :
    ∀ i p, (s.go thread place).threads[i]? = some p → i ≠ thread → p = .idle := by
  intro i p hp hne
  rw [ConfigVar.go, List.getElem?_set_ne (Ne.symm hne)] at hp
  exact h i p hp hne

/-- A thread's place behind its move. -/
theorem go_self {thread : Nat} {old place : Place α} (h : s.threads[thread]? = some old) :
    (s.go thread place).threads[thread]? = some place :=
  List.getElem?_set_self (List.getElem?_eq_some_iff.1 h).1

/-- One call at most is in progress, and the log agrees with it. -/
def Single (listeners : List Nat) (dflt : α) (s : ConfigVar α) : Prop :=
  ∃ done new, Stage listeners s done new ∧ Agrees listeners dflt s done new

/-- A quiet state has nothing pending. -/
theorem Single.quiet (h : Single listeners dflt s) (hquiet : s.Quiet) :
    Agrees listeners dflt s [] s.val := by
  obtain ⟨done, new, hstage, hagrees⟩ := h
  cases hstage with
  | quiet _ _ => exact hagrees.begin s.val
  | notifying hplace _ _ => cases hquiet _ (List.mem_of_getElem? hplace)
  | assigning hplace _ => cases hquiet _ (List.mem_of_getElem? hplace)

variable [DecidableEq α] {fromStr : String → Option α} {move : Move α}

/-- The comparison at the start of a call. -/
theorem Single.compare {thread : Nat} {val : α} (h : Single listeners dflt s)
    (hidle : s.threads[thread]? = some .idle) (halone : val = s.val ∨ s.Quiet) :
    Single listeners dflt (s.compare listeners thread val) := by
  unfold ConfigVar.compare
  split
  · exact h
  · rename_i hne
    have hquiet := halone.resolve_left hne
    refine ⟨[], val, .notifying (go_self hidle) (others_go fun i p hp _ => ?_) rfl, ?_⟩
    · exact hquiet p (List.mem_of_getElem? hp)
    · exact ((h.quiet hquiet).begin val).congr rfl rfl

/-- **Every step of a run without overlaps keeps the log and the variable in agreement.** -/
theorem Single.next (h : Single listeners dflt s) (halone : move.Alone fromStr s)
    (hn : s.next fromStr listeners move = some t) : Single listeners dflt t := by
  cases move with
  | setValue thread val =>
    simp only [ConfigVar.next] at hn
    split at hn
    · rename_i hidle
      obtain rfl := Option.some.inj hn
      exact h.compare hidle halone
    · cases hn
  | fromString thread text =>
    simp only [ConfigVar.next] at hn
    split at hn
    · rename_i hidle
      cases hconv : fromStr text with
      | none =>
        rw [hconv] at hn
        obtain rfl := Option.some.inj hn
        exact h
      | some val =>
        rw [hconv] at hn
        obtain rfl := Option.some.inj hn
        refine h.compare hidle ?_
        rcases halone with hnone | hsame | hquiet
        · cases hconv.symm.trans hnone
        · exact .inl (Option.some.inj (hconv.symm.trans hsame))
        · exact .inr hquiet
    · cases hn
  | notify thread throws =>
    obtain rfl : throws = false := halone
    simp only [ConfigVar.next] at hn
    split at hn
    · rename_i val l rest hplace
      obtain rfl := Option.some.inj hn
      obtain ⟨done, new, hstage, hagrees⟩ := h
      obtain ⟨rfl, hlist, hothers⟩ := hstage.notifying_inv hplace
      have hl : l ∈ listeners := by
        rw [hlist]
        exact List.mem_append_right _ List.mem_cons_self
      refine ⟨done ++ [l], val, .notifying (go_self hplace) (others_go hothers) ?_,
        hagrees.called hl rfl rfl⟩
      rw [List.append_assoc]
      exact hlist
    · cases hn
  | unlock thread =>
    simp only [ConfigVar.next] at hn
    split at hn
    · rename_i val hplace
      obtain rfl := Option.some.inj hn
      obtain ⟨done, new, hstage, hagrees⟩ := h
      obtain ⟨rfl, hlist, hothers⟩ := hstage.notifying_inv hplace
      rw [List.append_nil] at hlist
      subst hlist
      exact ⟨_, val, .assigning (go_self hplace) (others_go hothers), hagrees.congr rfl rfl⟩
    · cases hn
  | assign thread =>
    simp only [ConfigVar.next] at hn
    split at hn
    · rename_i val hplace
      split at hn
      · cases hn
      obtain rfl := Option.some.inj hn
      obtain ⟨done, new, hstage, hagrees⟩ := h
      obtain ⟨rfl, rfl, hothers⟩ := hstage.assigning_inv hplace
      refine ⟨[], val, .quiet val fun p hp => ?_, hagrees.assigned rfl rfl⟩
      obtain ⟨i, hi⟩ := List.mem_iff_getElem?.1 hp
      by_cases heq : i = thread
      · subst heq
        exact (Option.some.inj ((go_self hplace).symm.trans hi)).symm
      · exact others_go hothers i p hi heq
    · cases hn

/-- Every run without overlaps keeps the log and the variable in agreement. -/
theorem single_of_run {n : Nat} {moves : List (Move α)}
    (hrun : (system fromStr listeners n dflt).Run (fun s move => move.Alone fromStr s) moves s) :
    Single listeners dflt s := by
  refine hrun.invariant (I := fun _ s => Single listeners dflt s) ?_ fun _ _ _ _ h halone hn =>
    h.next halone hn
  refine ⟨[], dflt, .quiet dflt fun p hp => List.eq_of_mem_replicate hp, ?_⟩
  exact ⟨fun l _ => rfl, fun _ _ => rfl, rfl, .nil,
    fun pre mid l old new h _ => by simp [system] at h⟩

end

section

variable [DecidableEq α] {fromStr : String → Option α} {listeners : List Nat} {n : Nat} {dflt : α}
  {moves : List (Move α)} {s : ConfigVar α}

/-- **The listeners are told what is assigned.**  In every run in which a call that changes the
value begins only while no other call is in progress and no listener throws: when no call is in
progress, every listener that was notified at all was told the value of the variable last; and in
every state the old value of a listener call is the value installed before it, and the next
assignment installs its new value. -/
theorem listeners_told (hrun : (system fromStr listeners n dflt).Run
    (fun s move => move.Alone fromStr s) moves s) :
    (s.Quiet → ∀ l v, told l s.log = some v → v = s.val) ∧
      ∀ pre e post, s.log = pre ++ e :: post → Proper dflt pre e := by
  have h := single_of_run hrun
  refine ⟨fun hquiet l v hv => ?_, ?_⟩
  · have hagrees := h.quiet hquiet
    by_cases hl : l ∈ listeners
    · have hm := (hagrees.mirror l hl).trans (if_neg List.not_mem_nil)
      rw [mirror, hv, Option.getD_some] at hm
      exact hm
    · rw [hagrees.others l hl] at hv
      cases hv
  · obtain ⟨done, new, -, hagrees⟩ := h
    exact fun pre e post hlog => hagrees.proper.at hlog

/-- **The mirrors agree with the variable** when no call is in progress. -/
theorem mirror_eq (hrun : (system fromStr listeners n dflt).Run
    (fun s move => move.Alone fromStr s) moves s)
    (hquiet : s.Quiet) {l : Nat} (hl : l ∈ listeners) : mirror dflt l s.log = s.val :=
  (((single_of_run hrun).quiet hquiet).mirror l hl).trans (if_neg List.not_mem_nil)

end

/-- Whether no call is on its way can be computed. -/
instance (s : ConfigVar α) [DecidableEq α] : Decidable s.Quiet :=
  inferInstanceAs (Decidable (∀ place ∈ s.threads, place = .idle))

/-- Whether a move comes alone can be computed. -/
instance [DecidableEq α] (fromStr : String → Option α) (s : ConfigVar α) :
    (move : Move α) → Decidable (move.Alone fromStr s)
  | .setValue _ _ => inferInstanceAs (Decidable (_ ∨ _))
  | .fromString _ _ => inferInstanceAs (Decidable (_ ∨ _ ∨ _))
  | .notify _ _ => inferInstanceAs (Decidable (_ = _))
  | .unlock _ => .isTrue trivial
  | .assign _ => .isTrue trivial

/-- Two threads set the connect timeout one after the other; there is one listener. -/
def oneByOne : List (Move Nat) :=
  [.setValue 0 10, .notify 0 false, .unlock 0, .assign 0, .setValue 1 20, .notify 1 false,
    .unlock 1, .assign 1]

/-- In that run the listener knows the value at the end. -/
theorem listeners_told_oneByOne : ∃ s, (system (fun _ => none) [1] 2 5000).Run
    (fun s move => move.Alone (fun _ => none) s) oneByOne s ∧ s.Quiet ∧ told 1 s.log = some 20 ∧
      20 = s.val := by
  have hsome : ((system (fun _ => none) [1] 2 5000).exec
      (fun s move => decide (move.Alone (fun _ => none) s))
      (system (fun _ => none) [1] 2 5000).init oneByOne).isSome = true := by decide
  obtain ⟨s, hs⟩ := Option.isSome_iff_exists.1 hsome
  have hend : ((system (fun _ => none) [1] 2 5000).exec
      (fun s move => decide (move.Alone (fun _ => none) s))
      (system (fun _ => none) [1] 2 5000).init oneByOne).all
      (fun s => decide (s.Quiet ∧ told 1 s.log = some 20)) = true := by decide
  rw [hs] at hend
  obtain ⟨hquiet, htold⟩ := of_decide_eq_true hend
  have hrun : (system (fun _ => none) [1] 2 5000).Run
      (fun s move => move.Alone (fun _ => none) s) oneByOne s :=
    System.run_of_exec (fun _ _ => of_decide_eq_true) hs
  exact ⟨s, hrun, hquiet, htold, (listeners_told hrun).1 hquiet 1 20 htold⟩

/-- Two threads set the connect timeout; both have called the listener when the first of them
assigns its value last. -/
def crossed : List (Move Nat) :=
  [.setValue 0 10, .setValue 1 20, .notify 0 false, .notify 1 false, .unlock 0, .unlock 1,
    .assign 1, .assign 0]

/-- **Overlapping calls leave a listener with another value than the variable.** -/
theorem overlapping_calls : ∃ s, (system (fun _ => none) [1] 2 5000).Run anyStep crossed s ∧ s.Quiet ∧
    s.val = 10 ∧ ¬ ∀ l v, told l s.log = some v → v = s.val := by
  have hsome : ((system (fun _ => none) [1] 2 5000).exec (fun _ _ => true)
      (system (fun _ => none) [1] 2 5000).init crossed).isSome = true := by decide
  obtain ⟨s, hs⟩ := Option.isSome_iff_exists.1 hsome
  have hend : ((system (fun _ => none) [1] 2 5000).exec (fun _ _ => true)
      (system (fun _ => none) [1] 2 5000).init crossed).all
      (fun s => decide (s.Quiet ∧ s.val = 10 ∧ told 1 s.log = some 20)) = true := by decide
  rw [hs] at hend
  obtain ⟨hquiet, hval, htold⟩ := of_decide_eq_true hend
  refine ⟨s, System.run_of_exec (fun _ _ _ => trivial) hs, hquiet, hval, fun h => ?_⟩
  have h20 := h 1 20 htold
  rw [hval] at h20
  exact absurd h20 (by decide)

end Config
end Wuchat
