/-
# The vector of descriptor contexts

`m_fdContexts` holds a pointer to the context of every descriptor below its size.  `addEvent` tests
the size under the read lock; when the descriptor is beyond it, the lock is given up and
`contextResize(fd * 2)` runs under the write lock, without another look at the size.  Here
these are separate steps, and so are the writes to a context under its own mutex.

A pointer is the number of its object; null is `none`.  A shrinking `resize` drops pointers and
frees nothing.  An overflow of `fd * 2`, a null dereference and a failed assertion have no next
state; reading the vector out of range is recorded in `inRange`, and the sizes it has had
in `sizes`.

The vector is `Sound` in every state of a run exactly when no thread resizes it to less than its
size (`sound_iff`).  Two threads with different descriptors are enough for that to happen
(`resize_strands`).
-/

import Mathlib.Data.List.Basic
import Wuchat.Io.Invariant

namespace Wuchat
namespace Contexts

open Foundation
open Io (Event Mask)

/-- What matters here of an `FdContext`: its descriptor and its events. -/
structure Context where
  fd : Nat
  event : Mask
  deriving DecidableEq, Repr

/-- Where a thread is in `addEvent` or `delEvent`. -/
inductive Place
  | idle
  | grow (fd : Nat) (e : Event)
  | add (e : Event) (p : Option Nat)
  | del (e : Event) (p : Option Nat)
  deriving DecidableEq, Repr

/-- The vector, the contexts ever made, and the threads. -/
structure Table where
  vec : List (Option Nat)
  heap : List Context
  threads : Nat → Place
  sizes : List Nat
  inRange : Bool

/-- The loop of `contextResize` from an index on: a null entry gets a new context. -/
def fill : Nat → List (Option Nat) → List Context → List (Option Nat) × List Context
  | _, [], heap => ([], heap)
  | i, some p :: vec, heap =>
    let r := fill (i + 1) vec heap
    (some p :: r.1, r.2)
  | i, none :: vec, heap =>
    let r := fill (i + 1) vec (heap ++ [⟨i, .none⟩])
    (some heap.length :: r.1, r.2)

namespace Table

variable (s : Table)

/-- `m_fdContexts.resize(size)`. -/
def resize (size : Nat) : List (Option Nat) := s.vec.take size ++ List.replicate (size - s.vec.length) none

/-- `contextResize(size)`. -/
def contextResize (size : Nat) : Table :=
  { s with
    vec := (fill 0 (s.resize size) s.heap).1
    heap := (fill 0 (s.resize size) s.heap).2
    sizes := s.sizes ++ [size] }

/-- `IOManager()`. -/
def new : Table := contextResize ⟨[], [], fun _ => .idle, [], true⟩ 32

/-- A thread goes on. -/
def go (thread : Nat) (place : Place) : Table := { s with threads := Function.update s.threads thread place }

/-- `fdContext = m_fdContexts[fd]`. -/
def load (thread fd : Nat) (place : Option Nat → Place) : Table :=
  match s.vec[fd]? with
  | some p => s.go thread (place p)
  | none => { s with inRange := false }

/-- A write to the events of a context. -/
def setEvent (p : Nat) (c : Context) (event : Mask) : Table := { s with heap := s.heap.set p { c with event } }

end Table

/-- The steps: the size tests of `addEvent` and `delEvent`, the resize of `addEvent`, and the rest of both. -/
inductive Move
  | addEvent (thread fd : Nat) (e : Event)
  | contextResize (thread : Nat)
  | register (thread : Nat) (ok : Bool)
  | delEvent (thread fd : Nat) (e : Event)
  | unregister (thread : Nat) (ok : Bool)
  deriving DecidableEq, Repr

/-- The state after a step, with the answer of `epoll_ctl`. -/
def Table.next (s : Table) : Move → Option Table
  | .addEvent thread fd e =>
    if s.threads thread = .idle then
      some (if fd < s.vec.length then s.load thread fd (.add e) else s.go thread (.grow fd e))
    else none
  | .contextResize thread =>
    match s.threads thread with
    | .grow fd e =>
      if fd * 2 < 2 ^ 31 then some ((s.contextResize (fd * 2)).load thread fd (.add e)) else none
    | _ => none
  | .register thread ok =>
    match s.threads thread with
    | .add e (some p) =>
      match s.heap[p]? with
      | some c =>
        if c.event.has e then none
        else some (if ok then (s.setEvent p c (c.event.add e)).go thread .idle else s.go thread .idle)
      | none => none
    | _ => none
  | .delEvent thread fd e =>
    if s.threads thread = .idle then
      some (if s.vec.length ≤ fd then s.go thread .idle else s.load thread fd (.del e))
    else none
  | .unregister thread ok =>
    match s.threads thread with
    | .del e (some p) =>
      match s.heap[p]? with
      | some c =>
        some (if c.event.has e ∧ ok = true then (s.setEvent p c (c.event.remove e)).go thread .idle
          else s.go thread .idle)
      | none => none
    | _ => none

/-- The vector as a system. -/
def system : System Table Move := ⟨.new, Table.next⟩

/-- The vector has never shrunk, its entry for a descriptor describes it, a context with events is where its
descriptor is looked up, and no read was out of range. -/
structure Sound (s : Table) : Prop where
  sizes : s.sizes.Pairwise (· ≤ ·)
  entry : ∀ i < s.vec.length, ∃ (p : Nat) (c : Context), s.vec[i]? = some (some p) ∧ s.heap[p]? = some c ∧ c.fd = i
  reach : ∀ (p : Nat) (c : Context), s.heap[p]? = some c → c.event ≠ .none → s.vec[c.fd]? = some (some p)
  inRange : s.inRange = true

/-- The resize of a thread does not make the vector smaller. -/
def Move.Grows (s : Table) : Move → Prop
  | .contextResize thread => ∀ fd e, s.threads thread = .grow fd e → s.vec.length ≤ fd * 2
  | _ => True

/-! ### The loop of `contextResize` -/

/-- **What the loop does**: entries that were there stay, null entries get a context of their descriptor, and the
new contexts have no events. -/
theorem fill_spec (vec : List (Option Nat)) : ∀ (i : Nat) (heap : List Context),
    (fill i vec heap).1.length = vec.length ∧
    (∃ more, (fill i vec heap).2 = heap ++ more ∧ ∀ c ∈ more, c.event = .none) ∧
    (∀ k p : Nat, vec[k]? = some (some p) → (fill i vec heap).1[k]? = some (some p)) ∧
    ∀ k : Nat, vec[k]? = some none → ∃ (p : Nat) (c : Context), (fill i vec heap).1[k]? = some (some p) ∧
      (fill i vec heap).2[p]? = some c ∧ c.fd = i + k := by
  induction vec with
  | nil =>
    intro i heap
    refine ⟨rfl, ⟨[], (List.append_nil heap).symm, fun c hc => absurd hc List.not_mem_nil⟩, fun k p h => ?_,
      fun k h => ?_⟩
    · simp at h
    · simp at h
  | cons x vec ih =>
    intro i heap
    cases x with
    | some p =>
      obtain ⟨hlen, hmore, hold, hnew⟩ := ih (i + 1) heap
      refine ⟨congrArg (· + 1) hlen, hmore, fun k q h => ?_, fun k h => ?_⟩
      · cases k with
        | zero => exact h
        | succ k => exact hold k q h
      · cases k with
        | zero => cases h
        | succ k =>
          obtain ⟨q, c, hq, hc, hfd⟩ := hnew k h
          exact ⟨q, c, hq, hc, by omega⟩
    | none =>
      obtain ⟨hlen, ⟨more, hmore, hnone⟩, hold, hnew⟩ := ih (i + 1) (heap ++ [⟨i, .none⟩])
      refine ⟨congrArg (· + 1) hlen, ⟨⟨i, .none⟩ :: more, ?_, ?_⟩, fun k q h => ?_, fun k h => ?_⟩
      · rw [List.append_cons]
        exact hmore
      · intro c hc
        rcases List.mem_cons.1 hc with rfl | hc
        · rfl
        · exact hnone c hc
      · cases k with
        | zero => cases h
        | succ k => exact hold k q h
      · cases k with
        | zero =>
          refine ⟨heap.length, ⟨i, .none⟩, rfl, ?_, rfl⟩
          show (fill (i + 1) vec (heap ++ [⟨i, .none⟩])).2[heap.length]? = _
          rw [hmore]
          simp
        | succ k =>
          obtain ⟨q, c, hq, hc, hfd⟩ := hnew k h
          exact ⟨q, c, hq, hc, by omega⟩

/-- **What `contextResize` does.** -/
theorem contextResize_spec (s : Table) (size : Nat) :
    (s.contextResize size).vec.length = size ∧
    (∃ more, (s.contextResize size).heap = s.heap ++ more ∧ ∀ c ∈ more, c.event = .none) ∧
    (∀ i < size, ∀ p : Nat, s.vec[i]? = some (some p) → (s.contextResize size).vec[i]? = some (some p)) ∧
    ∀ i < size, s.vec.length ≤ i → ∃ (p : Nat) (c : Context), (s.contextResize size).vec[i]? = some (some p) ∧
      (s.contextResize size).heap[p]? = some c ∧ c.fd = i := by
  obtain ⟨hlen, hmore, hold, hnew⟩ := fill_spec (s.resize size) 0 s.heap
  have hsize : (s.resize size).length = size := by
    rw [Table.resize, List.length_append, List.length_take, List.length_replicate]
    omega
  refine ⟨hlen.trans hsize, hmore, fun i hi p hp => hold i p ?_, fun i hi hle => ?_⟩
  · have hlt : i < s.vec.length := by
      rw [List.getElem?_eq_some_iff] at hp
      exact hp.1
    rw [Table.resize, List.getElem?_append_left (by rw [List.length_take]; omega), List.getElem?_take_of_lt hi]
    exact hp
  · have hnull : (s.resize size)[i]? = some none := by
      rw [Table.resize, List.getElem?_append_right (by rw [List.length_take]; omega), List.getElem?_replicate,
        if_pos (by rw [List.length_take]; omega)]
    obtain ⟨p, c, hp, hc, hfd⟩ := hnew i hnull
    exact ⟨p, c, hp, hc, by omega⟩

/-! ### What a step can do -/

/-- A place a thread can come to without a resize. -/
def Place.Fits (s : Table) : Place → Prop
  | .idle => True
  | .grow fd _ => s.vec.length ≤ fd
  | .add _ p => ∃ fd : Nat, s.vec[fd]? = some p
  | .del _ p => ∃ fd : Nat, s.vec[fd]? = some p

/-- **What a step can do**: move a thread, resize, or write the events of a context. -/
inductive Change (s : Table) : Move → Table → Prop
  | go {move : Move} {thread : Nat} {place : Place} : (∀ t, move ≠ .contextResize t) → place.Fits s →
      Change s move (s.go thread place)
  | resized {thread fd : Nat} {e : Event} {p : Option Nat} : s.threads thread = .grow fd e →
      (s.contextResize (fd * 2)).vec[fd]? = some p →
      Change s (.contextResize thread) ((s.contextResize (fd * 2)).go thread (.add e p))
  | wrote {move : Move} {thread p : Nat} {c : Context} {event : Mask} : (∀ t, move ≠ .contextResize t) →
      s.heap[p]? = some c →
      (event ≠ .none → c.event ≠ .none ∨ ∃ t e, s.threads t = .add e (some p)) →
      Change s move ((s.setEvent p c event).go thread .idle)

/-- What holds in every run. -/
structure WellFormed (s : Table) : Prop where
  entry : ∀ i < s.vec.length, ∃ (p : Nat) (c : Context), s.vec[i]? = some (some p) ∧ s.heap[p]? = some c ∧ c.fd = i
  size : 32 ≤ s.vec.length
  growing : ∀ t fd e, s.threads t = .grow fd e → 32 ≤ fd
  last : s.vec.length ∈ s.sizes.getLast?
  inRange : s.inRange = true

/-- Where a thread is after one has gone on: that one is where it went, the others are where they were. -/
theorem go_threads {s : Table} {thread t : Nat} {place place' : Place} (h : (s.go thread place).threads t = place') :
    place = place' ∨ s.threads t = place' := by
  by_cases ht : t = thread
  · subst ht
    exact .inl ((Function.update_self ..).symm.trans h)
  · exact .inr ((Function.update_of_ne ht ..).symm.trans h)

/-- A load of a slot the table has. -/
theorem load_eq {s : Table} {thread fd : Nat} {place : Option Nat → Place} {p : Option Nat} (h : s.vec[fd]? = some p) :
    s.load thread fd place = s.go thread (place p) := by
  rw [Table.load, h]

section

variable {s s' : Table} {move : Move}

/-- **Every step does one of these.** -/
theorem WellFormed.next_change (h : WellFormed s) (hn : s.next move = some s') : Change s move s' := by
  have hget : ∀ fd < s.vec.length, ∃ p, s.vec[fd]? = some p :=
    fun fd hfd => ⟨_, List.getElem?_eq_getElem hfd⟩
  cases move with
  | addEvent thread fd e =>
    rw [Table.next] at hn
    split at hn
    · obtain rfl := Option.some.inj hn
      split
      · rename_i hfd
        obtain ⟨p, hp⟩ := hget fd hfd
        rw [load_eq hp]
        exact .go nofun ⟨fd, hp⟩
      · rename_i hfd
        exact .go nofun (Nat.le_of_not_lt hfd)
    · cases hn
  | contextResize thread =>
    rw [Table.next] at hn
    split at hn
    · rename_i fd e hplace
      split at hn
      · obtain rfl := Option.some.inj hn
        have hlen := (contextResize_spec s (fd * 2)).1
        have hpos := h.growing thread fd e hplace
        have hp : (s.contextResize (fd * 2)).vec[fd]? = some _ := List.getElem?_eq_getElem (by omega)
        rw [load_eq hp]
        exact .resized hplace hp
      · cases hn
    · cases hn
  | register thread ok =>
    rw [Table.next] at hn
    split at hn
    · rename_i e p hplace
      split at hn
      · rename_i c hc
        split at hn
        · cases hn
        · obtain rfl := Option.some.inj hn
          split
          · exact .wrote nofun hc fun _ => .inr ⟨thread, e, hplace⟩
          · exact .go nofun trivial
      · cases hn
    · cases hn
  | delEvent thread fd e =>
    rw [Table.next] at hn
    split at hn
    · obtain rfl := Option.some.inj hn
      split
      · exact .go nofun trivial
      · rename_i hfd
        obtain ⟨p, hp⟩ := hget fd (Nat.lt_of_not_le hfd)
        rw [load_eq hp]
        exact .go nofun ⟨fd, hp⟩
    · cases hn
  | unregister thread ok =>
    rw [Table.next] at hn
    split at hn
    · rename_i e p hplace
      split at hn
      · rename_i c hc
        obtain rfl := Option.some.inj hn
        split
        · refine .wrote nofun hc fun hne => .inl fun hnone => hne ?_
          rw [hnone]
          exact Mask.eq_none_iff.2 fun x => by simp
        · exact .go nofun trivial
      · cases hn
    · cases hn

/-- An event set changes one context. -/
theorem setEvent_heap {p : Nat} {c : Context} (hc : s.heap[p]? = some c) (event : Mask) (q : Nat) :
    (s.setEvent p c event).heap[q]? = if q = p then some ⟨c.fd, event⟩ else s.heap[q]? := by
  obtain ⟨hlt, -⟩ := List.getElem?_eq_some_iff.1 hc
  show (s.heap.set p _)[q]? = _
  rw [List.getElem?_set]
  by_cases hq : p = q
  · rw [if_pos hq, if_pos hq.symm, if_pos hlt]
  · rw [if_neg hq, if_neg fun h => hq h.symm]

/-- A context is still there after a write, for the same descriptor. -/
theorem exists_setEvent {p q : Nat} {c d : Context} (hc : s.heap[p]? = some c) (event : Mask)
    (hd : s.heap[q]? = some d) :
    ∃ d', (s.setEvent p c event).heap[q]? = some d' ∧ d'.fd = d.fd := by
  rw [setEvent_heap hc]
  by_cases hq : q = p
  · subst hq
    obtain rfl := Option.some.inj (hc.symm.trans hd)
    exact ⟨_, if_pos rfl, rfl⟩
  · exact ⟨d, (if_neg hq).trans hd, rfl⟩

namespace WellFormed

variable {thread : Nat}

/-- A thread's move keeps the table well formed. -/
theorem go (h : WellFormed s) {place : Place} (hfits : place.Fits s) : WellFormed (s.go thread place) := by
  refine ⟨h.entry, h.size, fun t fd e ht => ?_, h.last, h.inRange⟩
  rcases go_threads ht with rfl | ht
  · exact Nat.le_trans h.size hfits
  · exact h.growing t fd e ht

/-- So does a resize. -/
theorem resized (h : WellFormed s) {fd : Nat} {e : Event} {p : Option Nat} (hplace : s.threads thread = .grow fd e) :
    WellFormed ((s.contextResize (fd * 2)).go thread (.add e p)) := by
  obtain ⟨hlen, ⟨more, hheap, -⟩, hold, hnew⟩ := contextResize_spec s (fd * 2)
  have hpos := h.growing thread fd e hplace
  refine ⟨fun i hi => ?_, ?_, fun t fd' e' ht => ?_, ?_, h.inRange⟩
  · have hi : i < fd * 2 := hlen ▸ hi
    by_cases hlt : i < s.vec.length
    · obtain ⟨q, c, hq, hc, hfd⟩ := h.entry i hlt
      refine ⟨q, c, hold i hi q hq, ?_, hfd⟩
      show (s.contextResize (fd * 2)).heap[q]? = some c
      rw [hheap, List.getElem?_append_left (List.getElem?_eq_some_iff.1 hc).1]
      exact hc
    · exact hnew i hi (Nat.le_of_not_lt hlt)
  · show 32 ≤ (s.contextResize (fd * 2)).vec.length
    omega
  · rcases go_threads ht with ht | ht
    · cases ht
    · exact h.growing t fd' e' ht
  · show (s.contextResize (fd * 2)).vec.length ∈ (s.sizes ++ [fd * 2]).getLast?
    rw [hlen, List.getLast?_concat]
    rfl

/-- So does a context written. -/
theorem wrote (h : WellFormed s) {p : Nat} {c : Context} (hp : s.heap[p]? = some c) (event : Mask) :
    WellFormed ((s.setEvent p c event).go thread .idle) := by
  refine ⟨fun i hi => ?_, h.size, fun t fd e ht => ?_, h.last, h.inRange⟩
  · obtain ⟨q, d, hq, hd, hfd⟩ := h.entry i hi
    obtain ⟨d', hd', hfd'⟩ := exists_setEvent hp event hd
    exact ⟨q, d', hq, hd', hfd'.trans hfd⟩
  · rcases go_threads ht with ht | ht
    · cases ht
    · exact h.growing t fd e ht

/-- So does every change. -/
theorem change (h : WellFormed s) (hc : Change s move s') : WellFormed s' := by
  cases hc with
  | go _ hfits => exact h.go hfits
  | resized hplace _ => exact h.resized hplace
  | wrote _ hp _ => exact h.wrote hp _

end WellFormed

/-! ### Vectors that only grow -/

/-- What holds as long as the vector only grows: contexts with events, and those that a thread is about to
register on, are where their descriptors are looked up. -/
structure Kept (s : Table) : Prop where
  sizes : s.sizes.Pairwise (· ≤ ·)
  most : ∀ n ∈ s.sizes, n ≤ s.vec.length
  reach : ∀ (p : Nat) (c : Context), s.heap[p]? = some c → c.event ≠ .none → s.vec[c.fd]? = some (some p)
  held : ∀ t e (p : Nat), s.threads t = .add e (some p) → ∃ c, s.heap[p]? = some c ∧ s.vec[c.fd]? = some (some p)

/-- The context that is found for a descriptor is in its place. -/
theorem WellFormed.of_get (h : WellFormed s) {fd p : Nat} (hp : s.vec[fd]? = some (some p)) :
    ∃ c, s.heap[p]? = some c ∧ s.vec[c.fd]? = some (some p) := by
  obtain ⟨q, c, hq, hc, rfl⟩ := h.entry fd (List.getElem?_eq_some_iff.1 hp).1
  obtain rfl : q = p := Option.some.inj (Option.some.inj (hq.symm.trans hp))
  exact ⟨c, hc, hq⟩

namespace Kept

variable {thread : Nat}

/-- A thread's move keeps the contexts where they are looked up. -/
theorem go (h : Kept s) (hwf : WellFormed s) {place : Place} (hfits : place.Fits s) : Kept (s.go thread place) := by
  refine ⟨h.sizes, h.most, h.reach, fun t e p ht => ?_⟩
  rcases go_threads ht with rfl | ht
  · obtain ⟨fd, hp⟩ := hfits
    exact hwf.of_get hp
  · exact h.held t e p ht

/-- **A resize that does not shrink the vector loses no context.** -/
theorem resized (h : Kept s) (hwf : WellFormed s) {fd : Nat} {e : Event} {p : Option Nat}
    (hplace : s.threads thread = .grow fd e) (hp : (s.contextResize (fd * 2)).vec[fd]? = some p)
    (hle : s.vec.length ≤ fd * 2) : Kept ((s.contextResize (fd * 2)).go thread (.add e p)) := by
  have hwf' := hwf.resized hplace (p := p)
  obtain ⟨hlen, ⟨more, hheap, hnone⟩, hold, -⟩ := contextResize_spec s (fd * 2)
  have hkeep : ∀ i q : Nat, s.vec[i]? = some (some q) → (s.contextResize (fd * 2)).vec[i]? = some (some q) := by
    intro i q hq
    exact hold i (Nat.lt_of_lt_of_le (List.getElem?_eq_some_iff.1 hq).1 hle) q hq
  refine ⟨?_, fun n hn => ?_, fun q c hq hne => ?_, fun t e' q ht => ?_⟩
  · refine List.pairwise_append.2 ⟨h.sizes, List.pairwise_singleton _ _, fun n hn x hx => ?_⟩
    rw [List.mem_singleton.1 hx]
    exact Nat.le_trans (h.most n hn) hle
  · show n ≤ (s.contextResize (fd * 2)).vec.length
    rw [hlen]
    rcases List.mem_append.1 hn with hn | hn
    · exact Nat.le_trans (h.most n hn) hle
    · exact Nat.le_of_eq (List.mem_singleton.1 hn)
  · have hq : (s.heap ++ more)[q]? = some c := hheap ▸ hq
    by_cases hlt : q < s.heap.length
    · rw [List.getElem?_append_left hlt] at hq
      exact hkeep c.fd q (h.reach q c hq hne)
    · rw [List.getElem?_append_right (Nat.le_of_not_lt hlt)] at hq
      exact absurd (hnone c (List.mem_of_getElem? hq)) hne
  · rcases go_threads ht with ht | ht
    · cases ht
      exact hwf'.of_get hp
    · obtain ⟨c, hc, hq⟩ := h.held t e' q ht
      refine ⟨c, ?_, hkeep c.fd q hq⟩
      show (s.contextResize (fd * 2)).heap[q]? = some c
      rw [hheap, List.getElem?_append_left (List.getElem?_eq_some_iff.1 hc).1]
      exact hc

/-- So does a context written, if its thread was about to register on it. -/
theorem wrote (h : Kept s) {p : Nat} {c : Context} {event : Mask} (hp : s.heap[p]? = some c)
    (hevent : event ≠ .none → c.event ≠ .none ∨ ∃ t e, s.threads t = .add e (some p)) :
    Kept ((s.setEvent p c event).go thread .idle) := by
  refine ⟨h.sizes, h.most, fun q d hq hne => ?_, fun t e q ht => ?_⟩
  · have hset := setEvent_heap hp event q
    by_cases heq : q = p
    · subst heq
      rw [if_pos rfl] at hset
      obtain rfl := Option.some.inj (hset.symm.trans hq)
      rcases hevent hne with hold | ⟨t, e, ht⟩
      · exact h.reach q c hp hold
      · obtain ⟨d, hd, hget⟩ := h.held t e q ht
        obtain rfl := Option.some.inj (hp.symm.trans hd)
        exact hget
    · rw [if_neg heq] at hset
      exact h.reach q d (hset.symm.trans hq) hne
  · rcases go_threads ht with ht | ht
    · cases ht
    · obtain ⟨d, hd, hget⟩ := h.held t e q ht
      obtain ⟨d', hd', hfd⟩ := exists_setEvent hp event hd
      exact ⟨d', hd', hfd ▸ hget⟩

/-- **A step that does not shrink the vector loses no context.** -/
theorem change (h : Kept s) (hwf : WellFormed s) (hc : Change s move s') (hg : move.Grows s) : Kept s' := by
  cases hc with
  | go _ hfits => exact h.go hwf hfits
  | resized hplace hp => exact h.resized hwf hplace hp (hg _ _ hplace)
  | wrote _ hp hevent => exact h.wrote hp hevent

end Kept

/-- The sizes before a step are among those after it; a step that shrinks the vector leaves them out of order. -/
theorem Change.grows (hwf : WellFormed s) (hc : Change s move s') (hs : s'.sizes.Pairwise (· ≤ ·)) :
    s.sizes.Pairwise (· ≤ ·) ∧ move.Grows s := by
  have hother : (∀ t, move ≠ .contextResize t) → move.Grows s := by
    intro hmove
    cases move with
    | contextResize t => exact absurd rfl (hmove t)
    | _ => trivial
  cases hc with
  | go hmove _ => exact ⟨hs, hother hmove⟩
  | @resized thread fd e p hplace _ =>
    obtain ⟨hold, -, hlast⟩ := List.pairwise_append.1 hs
    refine ⟨hold, fun fd' e' hplace' => ?_⟩
    obtain ⟨rfl, -⟩ := Place.grow.inj (hplace.symm.trans hplace')
    exact hlast _ (List.mem_of_getLast? hwf.last) _ (List.mem_singleton_self _)
  | wrote hmove _ _ => exact ⟨hs, hother hmove⟩

end

/-- A new table is well formed. -/
theorem wellFormed_new : WellFormed .new := by
  obtain ⟨hlen, -, -, hnew⟩ := contextResize_spec ⟨[], [], fun _ => .idle, [], true⟩ 32
  refine ⟨fun i hi => hnew i (hlen ▸ hi) (Nat.zero_le i), Nat.le_of_eq hlen.symm, fun t fd e ht => ?_, ?_, rfl⟩
  · cases ht
  · exact congrArg some hlen.symm

/-- A new table has no context to lose. -/
theorem kept_new : Kept .new := by
  obtain ⟨hlen, ⟨more, hheap, hnone⟩, -, -⟩ := contextResize_spec ⟨[], [], fun _ => .idle, [], true⟩ 32
  refine ⟨List.pairwise_singleton _ _, fun n hn => ?_, fun p c hp hne => ?_, fun t e p ht => ?_⟩
  · rw [List.mem_singleton.1 hn]
    exact Nat.le_of_eq hlen.symm
  · have hp : more[p]? = some c := by
      rw [Table.new, hheap] at hp
      exact hp
    exact absurd (hnone c (List.mem_of_getElem? hp)) hne
  · cases ht

/-- **The vector is sound exactly while every resize makes it larger.**  For every interleaving of the size tests, the
resizes and the registrations of any number of `addEvent` and `delEvent` calls, whatever the descriptors: it
has never shrunk, its entries describe their descriptors, no context with an event is lost, and no
read was out of range, iff every `contextResize(fd * 2)` found a size of at most `fd * 2`. -/
theorem sound_iff {moves : List Move} {s : Table} (hrun : system.Run anyStep moves s) :
    Sound s ↔ system.Run (fun s move => move.Grows s) moves s := by
  have hall : WellFormed s ∧ (s.sizes.Pairwise (· ≤ ·) → system.Run (fun s move => move.Grows s) moves s) := by
    refine hrun.invariant (I := fun moves s => WellFormed s ∧
      (s.sizes.Pairwise (· ≤ ·) → system.Run (fun s move => move.Grows s) moves s)) ⟨wellFormed_new, fun _ => .start⟩ ?_
    rintro moves u move v ⟨hwf, ih⟩ - hnext
    have hc := hwf.next_change hnext
    refine ⟨hwf.change hc, fun hs => ?_⟩
    obtain ⟨hold, hg⟩ := hc.grows hwf hs
    exact (ih hold).step hg hnext
  constructor
  · exact fun h => hall.2 h.sizes
  · intro h
    have hkept : WellFormed s ∧ Kept s := by
      refine h.invariant (I := fun _ s => WellFormed s ∧ Kept s) ⟨wellFormed_new, kept_new⟩ ?_
      rintro _ u move v ⟨hwf, hk⟩ hg hnext
      have hc := hwf.next_change hnext
      exact ⟨hwf.change hc, hk.change hwf hc hg⟩
    exact ⟨hkept.2.sizes, hkept.1.entry, hkept.2.reach, hkept.1.inRange⟩

/-- Whether a move only grows the table can be computed. -/
instance (s : Table) : (move : Move) → Decidable (move.Grows s)
  | .addEvent _ _ _ => .isTrue trivial
  | .contextResize thread =>
    match h : s.threads thread with
    | .grow fd e => decidable_of_iff (s.vec.length ≤ fd * 2)
        ⟨fun hle _ _ h' => (Place.grow.inj (h.symm.trans h')).1 ▸ hle, fun hg => hg fd e h⟩
    | .idle => .isTrue fun _ _ h' => Place.noConfusion (h.symm.trans h')
    | .add _ _ => .isTrue fun _ _ h' => Place.noConfusion (h.symm.trans h')
    | .del _ _ => .isTrue fun _ _ h' => Place.noConfusion (h.symm.trans h')
  | .register _ _ => .isTrue trivial
  | .delEvent _ _ _ => .isTrue trivial
  | .unregister _ _ => .isTrue trivial

/-- Two threads find the vector too small; the one with the smaller descriptor resizes it first. -/
def smallFirst : List Move :=
  [.addEvent 0 64 .read, .addEvent 1 32 .write, .contextResize 1, .contextResize 0, .register 0 true, .register 1 true]

/-- In that order the vector stays sound. -/
theorem sound_iff_smallFirst : ∃ s, system.Run anyStep smallFirst s ∧
    system.Run (fun s move => move.Grows s) smallFirst s ∧ Sound s := by
  have hsome : (system.exec (fun s move => decide (move.Grows s)) system.init smallFirst).isSome = true := by
    decide +kernel
  obtain ⟨s, hs⟩ := Option.isSome_iff_exists.1 hsome
  have hgrows : system.Run (fun s move => move.Grows s) smallFirst s :=
    System.run_of_exec (fun _ _ => of_decide_eq_true) hs
  have hrun : system.Run anyStep smallFirst s := hgrows.mono fun _ _ _ => trivial
  exact ⟨s, hrun, hgrows, (sound_iff hrun).2 hgrows⟩

/-- The one with the larger descriptor resizes it first and registers its event. -/
def largeFirst : List Move :=
  [.addEvent 0 64 .read, .addEvent 1 32 .write, .contextResize 0, .register 0 true, .contextResize 1]

/-- **A resize strands a registration.**  The vector shrinks from 128 to 64 entries, and the context of descriptor 64,
which has its read registered, is not in it any more. -/
theorem resize_strands : ∃ s, system.Run anyStep largeFirst s ∧ s.sizes = [32, 128, 64] ∧
    (∃ p : Nat, s.heap[p]? = some ⟨64, ⟨true, false⟩⟩) ∧ s.vec[64]? = none ∧ ¬ Sound s := by
  have hsome : (system.exec (fun _ _ => true) system.init largeFirst).isSome = true := by decide +kernel
  obtain ⟨s, hs⟩ := Option.isSome_iff_exists.1 hsome
  have hend : (system.exec (fun _ _ => true) system.init largeFirst).all (fun s => decide (s.sizes = [32, 128, 64] ∧
      s.heap[64]? = some ⟨64, ⟨true, false⟩⟩ ∧ s.vec[64]? = none)) = true := by decide +kernel
  rw [hs] at hend
  obtain ⟨hsizes, hheap, hvec⟩ := of_decide_eq_true hend
  refine ⟨s, System.run_of_exec (fun _ _ _ => trivial) hs, hsizes, ⟨64, hheap⟩, hvec, fun h => ?_⟩
  have hreach := h.reach 64 _ hheap (by decide)
  rw [hvec] at hreach
  cases hreach

end Contexts
end Wuchat
