/-
# The contexts of descriptors

`fd_manager.cpp`: the hooked calls keep a context for every descriptor they know, with its
timeouts and its non-blocking flags.  `FdManager::get` looks it up under the read lock; when
it is to be created, the lock is given up and the creation runs under the write lock.  Here
these are separate steps of any number of threads.

A `shared_ptr` is the number of its object, null is `none`, and objects are never freed.
The log lists what the calls returned, and the deletions.  An overflow of `fd * 2` has no
next state.

Under the write lock `get` looks at the size of the vector again, but not at the slot.
Between two deletions of a descriptor all calls return one object exactly when every
creation finds its slot empty (`oneObject_iff`); two threads that create the same context
are enough for it to fail (`two_contexts`).
-/

import Mathlib.Algebra.Group.Nat.Defs
import Mathlib.Data.List.Basic
import Mathlib.Logic.Function.Basic
import Wuchat.Foundation.System

namespace Wuchat
namespace Fds

open Foundation

/-- `FdContext`. -/
structure FdContext where
  fd : Nat
  isInit : Bool
  isSocket : Bool
  isSysNonBlock : Bool
  isUserNonBlock : Bool
  isClosed : Bool
  recvTimeout : UInt64
  sendTimeout : UInt64
  deriving DecidableEq, Repr

/-- `SO_RCVTIMEO`. -/
def SO_RCVTIMEO : Int := 20

/-- `SO_SNDTIMEO`. -/
def SO_SNDTIMEO : Int := 21

namespace FdContext

/-- `FdContext(fd)`: `stat` is the answer of `fstat`, whether the descriptor is a socket.  A socket
is set to non-blocking. -/
def new (fd : Nat) (stat : Option Bool) : FdContext where
  fd := fd
  isInit := stat.isSome
  isSocket := stat.getD false
  isSysNonBlock := stat.getD false
  isUserNonBlock := false
  isClosed := false
  recvTimeout := -1
  sendTimeout := -1

/-- `setTimeout(type, v)`. -/
def setTimeout (c : FdContext) (type : Int) (v : UInt64) : FdContext :=
  if type = SO_RCVTIMEO then { c with recvTimeout := v } else { c with sendTimeout := v }

/-- `getTimeout(type)`. -/
def getTimeout (c : FdContext) (type : Int) : UInt64 :=
  if type = SO_RCVTIMEO then c.recvTimeout else c.sendTimeout

/-- `setUserNonBlock(v)`. -/
def setUserNonBlock (c : FdContext) (v : Bool) : FdContext := { c with isUserNonBlock := v }

end FdContext

/-- Where a thread is in `get`. -/
inductive Place
  | idle
  | create (fd : Nat)
  deriving DecidableEq, Repr

/-- What happened: a call of `get` returned, or a descriptor was deleted. -/
inductive Event
  | got (fd : Nat) (autoCreate : Bool) (p : Option Nat)
  | deleted (fd : Nat)
  deriving DecidableEq, Repr

/-- `FdManager`, with the contexts ever made and the threads. -/
structure FdManager where
  fds : List (Option Nat)
  heap : List FdContext
  threads : Nat → Place
  log : List Event

namespace FdManager

variable (s : FdManager)

/-- `FdManager()`. -/
def new : FdManager := ⟨List.replicate 64 none, [], fun _ => .idle, []⟩

/-- The context of a descriptor; null beyond the vector. -/
def slot (fd : Nat) : Option Nat := s.fds[fd]?.join

/-- A thread goes on. -/
def go (thread : Nat) (place : Place) : FdManager :=
  { s with threads := Function.update s.threads thread place }

/-- Append to the log. -/
def emit (e : Event) : FdManager := { s with log := s.log ++ [e] }

/-- `get(fd, auto_create)` up to the end of the read lock. -/
def get (thread fd : Nat) (autoCreate : Bool) : FdManager :=
  match s.fds[fd]? with
  | none => if autoCreate then s.go thread (.create fd) else s.emit (.got fd autoCreate none)
  | some p =>
    if p.isSome ∨ autoCreate = false then s.emit (.got fd autoCreate p) else s.go thread (.create fd)

/-- `m_fds.resize(fd * 2)` if the descriptor is beyond the vector. -/
def grown (fd : Nat) : List (Option Nat) :=
  if s.fds.length ≤ fd then s.fds ++ List.replicate (fd * 2 - s.fds.length) none else s.fds

/-- The rest of `get`, under the write lock. -/
def create (thread fd : Nat) (stat : Option Bool) : FdManager :=
  ({ s with
      fds := (s.grown fd).set fd (some s.heap.length)
      heap := s.heap ++ [FdContext.new fd stat] }.go thread .idle).emit
        (.got fd true (some s.heap.length))

/-- `del(fd)`. -/
def del (fd : Nat) : FdManager := { s with fds := s.fds.set fd none }.emit (.deleted fd)

/-- A write to a context through a pointer. -/
def modify (p : Nat) (f : FdContext → FdContext) : FdManager := { s with heap := s.heap.modify p f }

end FdManager

/-- The steps: the two parts of `get`, `del`, and the writes to a context. -/
inductive Move
  | get (thread fd : Nat) (autoCreate : Bool)
  | create (thread : Nat) (stat : Option Bool)
  | del (thread fd : Nat)
  | setTimeout (p : Nat) (type : Int) (v : UInt64)
  | setUserNonBlock (p : Nat) (v : Bool)
  deriving DecidableEq, Repr

/-- The state after a step. -/
def FdManager.next (s : FdManager) : Move → Option FdManager
  | .get thread fd autoCreate =>
      if s.threads thread = .idle then some (s.get thread fd autoCreate) else none
  | .create thread stat =>
    match s.threads thread with
    | .create fd => if fd < s.fds.length ∨ fd * 2 < 2 ^ 31 then some (s.create thread fd stat) else none
    | .idle => none
  | .del thread fd => if s.threads thread = .idle then some (s.del fd) else none
  | .setTimeout p type v => some (s.modify p (·.setTimeout type v))
  | .setUserNonBlock p v => some (s.modify p (·.setUserNonBlock v))

/-- The manager as a system. -/
def system : System FdManager Move := ⟨.new, FdManager.next⟩

/-- In every stretch of the log without a deletion of a descriptor, every `get(fd, true)` returned
one object and every `get(fd, false)` returned that object or null. -/
def OneObject (log : List Event) : Prop :=
  ∀ pre mid post fd, log = pre ++ mid ++ post → .deleted fd ∉ mid → ∃ p : Nat,
    (∀ q, .got fd true q ∈ mid → q = some p) ∧ ∀ q, .got fd false q ∈ mid → q = some p ∨ q = none

/-- The creation finds its slot empty. -/
def Move.FindsEmpty (s : FdManager) : Move → Prop
  | .create thread _ => ∀ fd, s.threads thread = .create fd → s.slot fd = none
  | _ => True

/-! ### What a step can do -/

section

variable {s t : FdManager} {move : Move} {fd fd' p thread : Nat}

/-- The slots behind `create`. -/
theorem slot_create (stat : Option Bool) (h64 : 64 ≤ s.fds.length) :
    (s.create thread fd stat).slot fd' = if fd' = fd then some s.heap.length else s.slot fd' := by
  have hlt : fd < (s.grown fd).length := by
    unfold FdManager.grown
    split
    · rw [List.length_append, List.length_replicate]
      omega
    · omega
  have hold : (s.grown fd)[fd']?.join = s.slot fd' := by
    unfold FdManager.grown FdManager.slot
    split
    · rw [List.getElem?_append]
      split
      · rfl
      · rename_i hge
        rw [List.getElem?_eq_none (Nat.le_of_not_lt hge), List.getElem?_replicate]
        split <;> rfl
    · rfl
  show ((s.grown fd).set fd (some s.heap.length))[fd']?.join = _
  by_cases heq : fd' = fd
  · rw [heq, if_pos rfl, List.getElem?_set_self hlt, Option.join_some]
  · rw [if_neg heq, List.getElem?_set_ne (Ne.symm heq), hold]

/-- The slots behind `del`. -/
theorem slot_del : (s.del fd).slot fd' = if fd' = fd then none else s.slot fd' := by
  show (s.fds.set fd none)[fd']?.join = _
  by_cases heq : fd' = fd
  · rw [heq, if_pos rfl]
    rcases Nat.lt_or_ge fd s.fds.length with hlt | hge
    · rw [List.getElem?_set_self hlt]
      rfl
    · rw [List.getElem?_eq_none (by rw [List.length_set]; exact hge)]
      rfl
  · rw [if_neg heq, List.getElem?_set_ne (Ne.symm heq), FdManager.slot]

/-- **What a step can do**: look a context up, leave it to be created, create it, delete it, or none
of these. -/
inductive Change (s : FdManager) : Move → FdManager → Prop
  | quiet {move : Move} {t : FdManager} (hmove : ∀ thread stat, move ≠ .create thread stat)
      (hfds : t.fds = s.fds)
      (hheap : t.heap.length = s.heap.length) (hlog : t.log = s.log) : Change s move t
  | found {thread fd : Nat} {autoCreate : Bool} (h : autoCreate = true → s.slot fd ≠ none) :
      Change s (.get thread fd autoCreate) (s.emit (.got fd autoCreate (s.slot fd)))
  | created {thread fd : Nat} {stat : Option Bool} (h : s.threads thread = .create fd) :
      Change s (.create thread stat) (s.create thread fd stat)
  | deleted {thread fd : Nat} : Change s (.del thread fd) (s.del fd)

/-- What `get` changes. -/
theorem get_change (autoCreate : Bool) : Change s (.get thread fd autoCreate)
    (s.get thread fd autoCreate) := by
  have hquiet : Change s (.get thread fd autoCreate) (s.go thread (.create fd)) :=
    .quiet nofun rfl rfl rfl
  unfold FdManager.get
  split
  · rename_i hnone
    have hslot : s.slot fd = none := by rw [FdManager.slot, hnone]; rfl
    split
    · exact hquiet
    · rename_i hauto
      rw [← hslot]
      exact .found fun h => absurd h hauto
  · rename_i p hsome
    have hslot : s.slot fd = p := by rw [FdManager.slot, hsome]; rfl
    split
    · rename_i hret
      rw [← hslot]
      refine .found fun hauto hnull => ?_
      rcases hret with hret | hret
      · rw [← hslot, hnull] at hret
        cases hret
      · rw [hret] at hauto
        cases hauto
    · exact hquiet

/-- What any move changes. -/
theorem next_change (hn : s.next move = some t) : Change s move t := by
  cases move with
  | get thread fd autoCreate =>
    simp only [FdManager.next] at hn
    split at hn
    · obtain rfl := Option.some.inj hn
      exact get_change autoCreate
    · cases hn
  | create thread stat =>
    simp only [FdManager.next] at hn
    split at hn
    · rename_i fd hplace
      split at hn
      · obtain rfl := Option.some.inj hn
        exact .created hplace
      · cases hn
    · cases hn
  | del thread fd =>
    simp only [FdManager.next] at hn
    split at hn
    · obtain rfl := Option.some.inj hn
      exact .deleted
    · cases hn
  | setTimeout p type v =>
    obtain rfl := Option.some.inj hn
    exact .quiet nofun rfl (List.length_modify _ _ _) rfl
  | setUserNonBlock p v =>
    obtain rfl := Option.some.inj hn
    exact .quiet nofun rfl (List.length_modify _ _ _) rfl

/-! ### One object between two deletions -/

/-- What holds in every run: the objects in the slots exist, and each was returned by a `get(fd,
true)` after the last deletion of its descriptor. -/
structure WellFormed (s : FdManager) : Prop where
  size : 64 ≤ s.fds.length
  known : ∀ fd p, s.slot fd = some p → p < s.heap.length
  returned : ∀ fd p, s.slot fd = some p → ∃ pre post,
    s.log = pre ++ .got fd true (some p) :: post ∧ .deleted fd ∉ post

/-- What holds while every creation finds its slot empty: what was returned for a descriptor after
its last deletion is null or what stands in the slot. -/
def Fresh (s : FdManager) : Prop :=
  ∀ pre mid fd, s.log = pre ++ mid → .deleted fd ∉ mid →
    (∀ q, .got fd true q ∈ mid → q ≠ none ∧ q = s.slot fd) ∧ ∀ q, .got fd false q ∈ mid →
      q = s.slot fd ∨ q = none

/-- The log gets longer; the slot of a descriptor that is not deleted stays unless it was empty. -/
theorem Fresh.snoc {e : Event} (h : Fresh s) (hlog : t.log = s.log ++ [e])
    (hslot : ∀ fd, e ≠ .deleted fd → s.slot fd = none ∨ t.slot fd = s.slot fd)
    (htrue : ∀ fd q, e = .got fd true q → q ≠ none ∧ q = t.slot fd)
    (hfalse : ∀ fd q, e = .got fd false q → q = t.slot fd ∨ q = none) : Fresh t := by
  intro pre mid fd hmid hdel
  rcases snoc_eq_append (hlog.symm.trans hmid) with ⟨rfl, -⟩ | ⟨mid', rfl, hold⟩
  · exact ⟨nofun, nofun⟩
  obtain ⟨hT, hF⟩ := h pre mid' fd hold fun hm => hdel (List.mem_append_left _ hm)
  have hne : e ≠ .deleted fd := by
    rintro rfl
    exact hdel (List.mem_append_right _ (List.mem_singleton_self _))
  refine ⟨fun q hq => ?_, fun q hq => ?_⟩
  · rcases List.mem_append.1 hq with hq | hq
    · obtain ⟨hnull, hslot'⟩ := hT q hq
      rcases hslot fd hne with hempty | hsame
      · exact absurd (hslot'.trans hempty) hnull
      · exact ⟨hnull, hslot'.trans hsame.symm⟩
    · exact htrue fd q (List.mem_singleton.1 hq).symm
  · rcases List.mem_append.1 hq with hq | hq
    · rcases hF q hq with hslot' | hnull
      · rcases hslot fd hne with hempty | hsame
        · exact .inr (hslot'.trans hempty)
        · exact .inl (hslot'.trans hsame.symm)
      · exact .inr hnull
    · exact hfalse fd q (List.mem_singleton.1 hq).symm

/-- The stretches at the end of the log are of one object. -/
theorem Fresh.oneObject {mid pre : List Event} (h : Fresh s) (hlog : s.log = pre ++ mid)
    (hdel : .deleted fd ∉ mid) :
    ∃ p : Nat, (∀ q, .got fd true q ∈ mid → q = some p) ∧ ∀ q, .got fd false q ∈ mid → q = some p ∨
      q = none := by
  obtain ⟨hT, hF⟩ := h pre mid fd hlog hdel
  cases hslot : s.slot fd with
  | none =>
    rw [hslot] at hT hF
    exact ⟨0, fun q hq => absurd (hT q hq).2 (hT q hq).1, fun q hq => .inr ((hF q hq).elim id id)⟩
  | some p =>
    rw [hslot] at hT hF
    exact ⟨p, fun q hq => (hT q hq).2, hF⟩

/-- An object that was returned is still the last one returned when the log gets longer by no
deletion. -/
theorem returned_snoc {e : Event} {log : List Event} (he : e ≠ .deleted fd)
    (h : ∃ pre post, log = pre ++ .got fd true (some p) :: post ∧ .deleted fd ∉ post) :
    ∃ pre post, log ++ [e] = pre ++ .got fd true (some p) :: post ∧ .deleted fd ∉ post := by
  obtain ⟨pre, post, rfl, hdel⟩ := h
  refine ⟨pre, post ++ [e], by simp, fun hm => ?_⟩
  rcases List.mem_append.1 hm with hm | hm
  · exact hdel hm
  · exact he (List.mem_singleton.1 hm).symm

/-- A change keeps the table well formed. -/
theorem WellFormed.change (h : WellFormed s) (hc : Change s move t) : WellFormed t := by
  cases hc with
  | quiet _ hfds hheap hlog =>
    have hslot : ∀ fd, t.slot fd = s.slot fd := fun fd => by rw [FdManager.slot, hfds, FdManager.slot]
    refine ⟨hfds ▸ h.size, fun fd p hp => ?_, fun fd p hp => ?_⟩
    · rw [hheap]
      exact h.known fd p (hslot fd ▸ hp)
    · rw [hlog]
      exact h.returned fd p (hslot fd ▸ hp)
  | found _ => exact ⟨h.size, h.known, fun fd p hp => returned_snoc nofun (h.returned fd p hp)⟩
  | @created thread fd stat hplace =>
    have hsize : s.fds.length ≤ (s.grown fd).length := by
      unfold FdManager.grown
      split
      · rw [List.length_append]
        omega
      · exact Nat.le_refl _
    have hlen : (s.create thread fd stat).heap.length = s.heap.length + 1 := by
      show (s.heap ++ [FdContext.new fd stat]).length = _
      rw [List.length_append, List.length_singleton]
    refine ⟨?_, fun fd' p hp => ?_, fun fd' p hp => ?_⟩
    · show 64 ≤ ((s.grown fd).set fd _).length
      rw [List.length_set]
      exact Nat.le_trans h.size hsize
    · rw [slot_create stat h.size] at hp
      rw [hlen]
      split at hp
      · exact Option.some.inj hp ▸ Nat.lt_succ_self _
      · exact Nat.lt_succ_of_lt (h.known fd' p hp)
    · rw [slot_create stat h.size] at hp
      split at hp
      · rename_i heq
        obtain rfl := Option.some.inj hp
        exact ⟨s.log, [], heq ▸ rfl, nofun⟩
      · exact returned_snoc nofun (h.returned fd' p hp)
  | @deleted thread fd =>
    refine ⟨?_, fun fd' p hp => ?_, fun fd' p hp => ?_⟩
    · show 64 ≤ (s.fds.set fd none).length
      rw [List.length_set]
      exact h.size
    · rw [slot_del] at hp
      split at hp
      · cases hp
      · exact h.known fd' p hp
    · rw [slot_del] at hp
      split at hp
      · cases hp
      · rename_i hne
        exact returned_snoc (fun heq => hne (Event.deleted.inj heq).symm) (h.returned fd' p hp)

/-- **A creation that finds its slot empty keeps one object to a descriptor.** -/
theorem Fresh.change (h : Fresh s) (hwf : WellFormed s) (hc : Change s move t)
    (hempty : move.FindsEmpty s) :
    Fresh t := by
  cases hc with
  | quiet _ hfds _ hlog =>
    have hslot : ∀ fd, t.slot fd = s.slot fd := fun fd => by rw [FdManager.slot, hfds, FdManager.slot]
    intro pre mid fd hmid hdel
    rw [hslot]
    exact h pre mid fd (hlog ▸ hmid) hdel
  | @found thread fd autoCreate hret =>
    refine h.snoc (e := .got fd autoCreate (s.slot fd)) rfl (fun _ _ => .inr rfl)
      (fun fd' q he => ?_) fun fd' q he => ?_
    · obtain ⟨rfl, hauto, rfl⟩ := Event.got.inj he
      exact ⟨hret hauto, rfl⟩
    · obtain ⟨rfl, -, rfl⟩ := Event.got.inj he
      exact .inl rfl
  | @created thread fd stat hplace =>
    have hslot : ∀ fd', (s.create thread fd stat).slot fd' =
        if fd' = fd then some s.heap.length else s.slot fd' :=
      fun fd' => slot_create stat hwf.size
    refine h.snoc (e := .got fd true (some s.heap.length)) rfl (fun fd' _ => ?_)
      (fun fd' q he => ?_) fun fd' q he => ?_
    · rw [hslot]
      split
      · rename_i heq
        exact .inl (heq ▸ hempty fd hplace)
      · exact .inr rfl
    · obtain ⟨rfl, -, rfl⟩ := Event.got.inj he
      exact ⟨Option.some_ne_none _, by rw [hslot, if_pos rfl]⟩
    · obtain ⟨-, hauto, -⟩ := Event.got.inj he
      cases hauto
  | @deleted thread fd =>
    refine h.snoc (e := .deleted fd) rfl (fun fd' hne => ?_) nofun nofun
    have hfd : fd' ≠ fd := fun heq => hne (congrArg Event.deleted heq.symm)
    rw [slot_del, if_neg hfd]
    exact .inr rfl

/-- One object for every use so far. -/
theorem OneObject.left {log log' : List Event} (h : OneObject (log ++ log')) : OneObject log := by
  rintro pre mid post fd rfl hdel
  exact h pre mid (post ++ log') fd (List.append_assoc ..) hdel

/-- A stretch of a longer log is one of the log before, or it is at the end. -/
theorem OneObject.snoc {e : Event} {log : List Event} (h : OneObject log)
    (hend : ∀ pre mid fd, log ++ [e] = pre ++ mid → .deleted fd ∉ mid → ∃ p : Nat,
      (∀ q, .got fd true q ∈ mid → q = some p) ∧ ∀ q, .got fd false q ∈ mid → q = some p ∨ q = none) :
    OneObject (log ++ [e]) := by
  intro pre mid post fd hlog hdel
  rcases snoc_eq_append hlog with ⟨rfl, -⟩ | ⟨post', rfl, rfl⟩
  · rw [List.append_nil] at hlog
    exact hend pre mid fd hlog hdel
  · exact h pre mid post' fd rfl hdel

/-- **A creation over an object makes two of them.** -/
theorem Change.findsEmpty (hwf : WellFormed s) (hc : Change s move t) (h : OneObject t.log) :
    OneObject s.log ∧ move.FindsEmpty s := by
  have hother : (∀ thread stat, move ≠ .create thread stat) → move.FindsEmpty s := by
    intro hmove
    cases move with
    | create thread stat => exact absurd rfl (hmove thread stat)
    | _ => trivial
  cases hc with
  | quiet hmove _ _ hlog => exact ⟨hlog ▸ h, hother hmove⟩
  | found _ => exact ⟨h.left, trivial⟩
  | @created thread fd stat hplace =>
    have h : OneObject (s.log ++ [.got fd true (some s.heap.length)]) := h
    refine ⟨h.left, fun fd' hplace' => ?_⟩
    obtain rfl := Place.create.inj (hplace.symm.trans hplace')
    refine Option.eq_none_iff_forall_ne_some.2 fun p hp => ?_
    obtain ⟨pre, post, hlog, hdel⟩ := hwf.returned fd p hp
    -- the stretch from the call that returned `p` to this one
    have hsplit : s.log ++ [Event.got fd true (some s.heap.length)] =
        pre ++ (.got fd true (some p) :: post ++ [.got fd true (some s.heap.length)]) ++ [] := by
      rw [hlog]
      simp
    obtain ⟨q, hq, -⟩ := h pre _ [] fd hsplit (by simpa using hdel)
    have hold : some p = some q := hq _ (by simp)
    have hnew : some s.heap.length = some q := hq _ (by simp)
    have hlt := hwf.known fd p hp
    rw [Option.some.inj (hold.trans hnew.symm)] at hlt
    exact Nat.lt_irrefl _ hlt
  | deleted => exact ⟨h.left, trivial⟩

/-- A new table has no context. -/
theorem slot_new (fd : Nat) : FdManager.new.slot fd = none := by
  show (List.replicate 64 none)[fd]?.join = none
  rw [List.getElem?_replicate]
  split <;> rfl

/-- A new table is well formed. -/
theorem wellFormed_new : WellFormed .new := by
  refine ⟨Nat.le_of_eq (List.length_replicate ..).symm, fun fd p hp => ?_, fun fd p hp => ?_⟩
  · rw [slot_new] at hp
    cases hp
  · rw [slot_new] at hp
    cases hp

/-- A new table has no object. -/
theorem fresh_new : Fresh .new := by
  intro pre mid fd hlog _
  obtain ⟨-, rfl⟩ := List.append_eq_nil_iff.1 hlog.symm
  exact ⟨nofun, nofun⟩

/-- Without a use there is no second object. -/
theorem oneObject_nil : OneObject [] := by
  intro pre mid post fd hlog _
  obtain ⟨hpre, -⟩ := List.append_eq_nil_iff.1 hlog.symm
  obtain ⟨-, rfl⟩ := List.append_eq_nil_iff.1 hpre
  exact ⟨0, nofun, nofun⟩

end

/-- **One object between two deletions exactly while every creation finds its slot empty.**  For
every interleaving of the look-ups and creations of any number of `get` calls, of `del` calls and of
writes to the contexts: between two deletions of a descriptor every `get(fd, true)` returned the
same object, and every `get(fd, false)` that object or null, iff every `get` that went on to create
a context found none under the write lock. -/
theorem oneObject_iff {moves : List Move} {s : FdManager} (hrun : system.Run anyStep moves s) :
    OneObject s.log ↔ system.Run (fun s move => move.FindsEmpty s) moves s := by
  have hall : WellFormed s ∧
      (OneObject s.log → system.Run (fun s move => move.FindsEmpty s) moves s) := by
    refine hrun.invariant (I := fun moves s => WellFormed s ∧
      (OneObject s.log → system.Run (fun s move => move.FindsEmpty s) moves s))
        ⟨wellFormed_new, fun _ => .start⟩ ?_
    rintro moves u move v ⟨hwf, ih⟩ - hnext
    have hc := next_change hnext
    refine ⟨hwf.change hc, fun hone => ?_⟩
    obtain ⟨hold, hempty⟩ := hc.findsEmpty hwf hone
    exact (ih hold).step hempty hnext
  refine ⟨hall.2, fun h => ?_⟩
  have hfresh : WellFormed s ∧ Fresh s ∧ OneObject s.log := by
    refine h.invariant (I := fun _ s => WellFormed s ∧ Fresh s ∧ OneObject s.log)
      ⟨wellFormed_new, fresh_new, oneObject_nil⟩ ?_
    rintro _ u move v ⟨hwf, hf, hone⟩ hempty hnext
    have hc := next_change hnext
    have hf' : Fresh v := hf.change hwf hc hempty
    refine ⟨hwf.change hc, hf', ?_⟩
    have hend : ∀ e, v.log = u.log ++ [e] → OneObject v.log := by
      intro e hlog
      rw [hlog]
      exact hone.snoc fun pre mid fd hmid hdel => hf'.oneObject (hlog.trans hmid) hdel
    cases hc with
    | quiet _ _ _ hlog => exact hlog ▸ hone
    | found _ => exact hend _ rfl
    | created _ => exact hend _ rfl
    | deleted => exact hend _ rfl
  exact hfresh.2.2

/-- Whether a creation finds its slot empty can be computed. -/
instance (s : FdManager) : (move : Move) → Decidable (move.FindsEmpty s)
  | .get _ _ _ => .isTrue trivial
  | .create thread _ =>
    match h : s.threads thread with
    | .create fd => decidable_of_iff (s.slot fd = none)
        ⟨fun hs _ h' => Place.create.inj (h.symm.trans h') ▸ hs, fun hf => hf fd h⟩
    | .idle => .isTrue fun _ h' => Place.noConfusion (h.symm.trans h')
  | .del _ _ => .isTrue trivial
  | .setTimeout _ _ _ => .isTrue trivial
  | .setUserNonBlock _ _ => .isTrue trivial

/-- A context is created, found by another thread, deleted and created again. -/
def oneAfterOther : List Move :=
  [.get 0 70 true, .create 0 (some true), .get 1 70 true, .setTimeout 0 SO_RCVTIMEO 500,
    .get 1 70 false, .del 0 70,
    .get 1 70 false, .get 1 70 true, .create 1 (some true)]

/-- In that run the object is one between the deletions. -/
theorem oneObject_iff_oneAfterOther : ∃ s, system.Run anyStep oneAfterOther s ∧
    system.Run (fun s move => move.FindsEmpty s) oneAfterOther s ∧ OneObject s.log := by
  have hsome : (system.exec (fun s move => decide (move.FindsEmpty s)) system.init
      oneAfterOther).isSome = true := by
    decide
  obtain ⟨s, hs⟩ := Option.isSome_iff_exists.1 hsome
  have hempty : system.Run (fun s move => move.FindsEmpty s) oneAfterOther s :=
    System.run_of_exec (fun _ _ => of_decide_eq_true) hs
  have hrun : system.Run anyStep oneAfterOther s := hempty.mono fun _ _ _ => trivial
  exact ⟨s, hrun, hempty, (oneObject_iff hrun).2 hempty⟩

/-- Two threads find no context for descriptor 5 and both create one. -/
def bothCreate : List Move :=
  [.get 0 5 true, .get 1 5 true, .create 0 (some true), .create 1 (some true)]

/-- **Two contexts for one descriptor.**  The first call returns an object that is in no slot any
more: a timeout set through it is lost. -/
theorem two_contexts : ∃ s, system.Run anyStep bothCreate s ∧
    s.log = [.got 5 true (some 0), .got 5 true (some 1)] ∧ s.slot 5 = some 1 ∧ ¬ OneObject s.log := by
  have hsome : (system.exec (fun _ _ => true) system.init bothCreate).isSome = true := by
    decide
  obtain ⟨s, hs⟩ := Option.isSome_iff_exists.1 hsome
  have hend : (system.exec (fun _ _ => true) system.init bothCreate).all (fun s => decide (
      s.log = [.got 5 true (some 0), .got 5 true (some 1)] ∧
        s.slot 5 = some 1)) = true := by
    decide
  rw [hs] at hend
  obtain ⟨hlog, hslot⟩ := of_decide_eq_true hend
  refine ⟨s, System.run_of_exec (fun _ _ _ => trivial) hs, hlog, hslot, fun hone => ?_⟩
  obtain ⟨p, hp, -⟩ := hone [] s.log [] 5 (List.append_nil _).symm (by rw [hlog]; decide)
  have h₀ : some 0 = some p := hp _ (by rw [hlog]; exact List.mem_cons_self)
  have h₁ : some 1 = some p := hp _ (by rw [hlog]; exact List.mem_cons_of_mem _ List.mem_cons_self)
  cases h₀.trans h₁.symm

end Fds
end Wuchat
