/-
# The bounds of the table of contexts

`fd_manager.cpp` takes a descriptor as an `int`, compares it with `(int)m_fds.size()`, and indexes
`m_fds` with it.  `get` sorts out -1; any other negative descriptor is below the size, and its index is
about `2^64`.  `del` sorts out none.  Here a function has no result where it indexes outside the
vector, and `get` none where `fd * 2` overflows.

On descriptors that are not negative these functions are those of `Hook.FdManager` (`next_refines`).
The accesses are in bounds exactly from -1 on for `get` and the hooked calls, and from 0 on for `del`;
a creation makes the vector long enough unless it has to grow for a descriptor from `2^30` on
(`bounds_iff`).
-/

import Mathlib.Algebra.Group.Int.Defs
import Wuchat.Hook.FdManager

namespace Wuchat
namespace Bounds

open Foundation
open Fds (FdContext FdManager Place)

/-- `(int)m_fds.size()`. -/
def size (s : FdManager) : Int32 := Int32.ofNat s.fds.length

/-- A descriptor as an index. -/
def index (fd : Int32) : Nat := fd.toInt64.toUInt64.toNat

/-- How the part of `get` under the read lock ends. -/
inductive Found
  | returned (p : Option Nat)
  | toCreate
  deriving DecidableEq, Repr

/-- `get(fd, auto_create)` up to the end of the read lock. -/
def find (s : FdManager) (fd : Int32) (autoCreate : Bool) : Option Found :=
  if fd = -1 then some (.returned none)
  else if size s ≤ fd then
    if !autoCreate then some (.returned none) else some .toCreate
  else
    match s.fds[index fd]? with
    | none => none
    | some p => if p.isSome || !autoCreate then some (.returned p) else some .toCreate

/-- `find` by a thread. -/
def get (s : FdManager) (thread : Nat) (fd : Int32) (autoCreate : Bool) : Option FdManager :=
  match find s fd autoCreate with
  | none => none
  | some (.returned p) => some (if fd = -1 then s else s.emit (.got (index fd) autoCreate p))
  | some .toCreate => some (s.go thread (.create (index fd)))

/-- `m_fds.resize(fd * 2)` if `fd >= (int)m_fds.size()`. -/
def grown (s : FdManager) (fd : Int32) : Option (List (Option Nat)) :=
  if size s ≤ fd then
    if fd.toInt * 2 < 2 ^ 31 then
      some (s.fds.take (index (fd * 2)) ++ List.replicate (index (fd * 2) - s.fds.length) none)
    else none
  else some s.fds

/-- The rest of `get`, under the write lock. -/
def create (s : FdManager) (thread : Nat) (fd : Int32) (stat : Option Bool) : Option FdManager :=
  match grown s fd with
  | none => none
  | some fds =>
    if index fd < fds.length then
      some (({ s with
          fds := fds.set (index fd) (some s.heap.length)
          heap := s.heap ++ [FdContext.new (index fd) stat] }.go thread .idle).emit
            (.got (index fd) true (some s.heap.length)))
    else none

/-- `del(fd)`. -/
def del (s : FdManager) (fd : Int32) : Option FdManager :=
  if size s ≤ fd then some (s.emit (.deleted (index fd)))
  else if index fd < s.fds.length then
    some ({ s with fds := s.fds.set (index fd) none }.emit (.deleted (index fd)))
  else none

/-- The hooked calls that pass the descriptor on to `get` and `del`. -/
inductive Call
  | doIo
  | connect
  | fcntl
  | ioctl
  | close
  deriving DecidableEq, Repr

/-- Whether the call looks the context up; `fcntl` and `ioctl` do so with the hooks off, too. -/
def Call.looksUp (hookEnable : Bool) : Call → Bool
  | .doIo | .connect | .close => hookEnable
  | .fcntl | .ioctl => true

/-- What a hooked call does with the table. -/
def hooked (s : FdManager) (hookEnable : Bool) (fd : Int32) (call : Call) : Option FdManager :=
  if !call.looksUp hookEnable then some s
  else match find s fd false with
    | none => none
    | some (.returned (some _)) => if call = .close then del s fd else some s
    | some _ => some s

/-- The steps: the two parts of `get`, `del`, and the writes to a context. -/
inductive Move
  | get (thread : Nat) (fd : Int32) (autoCreate : Bool)
  | create (thread : Nat) (stat : Option Bool)
  | del (thread : Nat) (fd : Int32)
  | setTimeout (p : Nat) (type : Int) (v : UInt64)
  | setUserNonBlock (p : Nat) (v : Bool)
  deriving DecidableEq, Repr

/-- The state after a step; none as well where it indexes outside the vector. -/
def next (s : FdManager) : Move → Option FdManager
  | .get thread fd autoCreate => if s.threads thread = .idle then get s thread fd autoCreate else none
  | .create thread stat =>
    match s.threads thread with
    | .create fd => create s thread (Int32.ofNat fd) stat
    | .idle => none
  | .del thread fd => if s.threads thread = .idle then del s fd else none
  | .setTimeout p type v => some (s.modify p fun ctx => ctx.setTimeout type v)
  | .setUserNonBlock p v => some (s.modify p fun ctx => ctx.setUserNonBlock v)

/-- The manager as a system. -/
def system : System FdManager Move := ⟨.new, next⟩

/-! ### Descriptors and indices -/

variable {s t : FdManager} {thread : Nat} {fd : Int32}

/-- The size of the vector is an `int`, and so are the descriptors for which a context is to be created. -/
structure Sized (s : FdManager) : Prop where
  least : 64 ≤ s.fds.length
  fits : s.fds.length < 2 ^ 31
  pending : ∀ thread fd, s.threads thread = .create fd → fd < 2 ^ 31

/-- The comparison with the table's size, in integers. -/
theorem Sized.size_le (h : Sized s) : size s ≤ fd ↔ (s.fds.length : Int) ≤ fd.toInt := by
  rw [Int32.le_iff_toInt_le, size, Int32.toInt_ofNat_of_lt h.fits]

/-- A descriptor that is not negative is its own index; the other indices are beyond every vector. -/
theorem index_cases (fd : Int32) :
    (0 ≤ fd.toInt ∧ (index fd : Int) = fd.toInt) ∨ (fd.toInt < 0 ∧ 2 ^ 31 ≤ index fd) := by
  have hcond := BitVec.toInt_eq_toNat_cond fd.toInt64.toBitVec
  have hint : fd.toInt64.toBitVec.toInt = fd.toInt := Int32.toInt_toInt64 fd
  have hindex : fd.toInt64.toBitVec.toNat = index fd := rfl
  have hleast := fd.le_toInt
  have hlt : index fd < 2 ^ 64 := fd.toInt64.toUInt64.toNat_lt
  rw [hint, hindex] at hcond
  split at hcond <;> omega

/-- Which descriptors the table has. -/
theorem index_lt_iff (h : Sized s) (fd : Int32) : index fd < s.fds.length ↔ 0 ≤ fd.toInt ∧ fd.toInt < s.fds.length := by
  have hfits := h.fits
  rcases index_cases fd with ⟨hpos, hindex⟩ | ⟨hneg, hindex⟩ <;> omega

/-- The descriptor -1, in integers. -/
theorem toInt_eq_neg_one : fd = -1 ↔ fd.toInt = -1 := by
  rw [← Int32.toInt_inj]
  exact .rfl

/-! ### What the functions do -/

/-- The look-up reads within the vector from -1 on. -/
theorem find_isSome (h : Sized s) (fd : Int32) (autoCreate : Bool) :
    (find s fd autoCreate).isSome ↔ -1 ≤ fd.toInt := by
  have hindex := index_lt_iff h fd
  have hleast := h.least
  unfold find
  split
  · rename_i heq
    exact iff_of_true rfl (Int.le_of_eq (toInt_eq_neg_one.mp heq).symm)
  · rename_i hne
    rw [toInt_eq_neg_one] at hne
    split
    · rename_i hbeyond
      rw [h.size_le] at hbeyond
      exact iff_of_true (by split <;> rfl) (by omega)
    · rename_i hwithin
      rw [h.size_le] at hwithin
      split
      · rename_i hnone
        rw [List.getElem?_eq_none_iff] at hnone
        exact iff_of_false nofun (by omega)
      · rename_i p hsome
        have hlt := (List.getElem?_eq_some_iff.mp hsome).1
        exact iff_of_true (by split <;> rfl) (by omega)

/-- From 0 on, `get` is the one of `Hook.FdManager`. -/
theorem get_eq (h : Sized s) (hpos : 0 ≤ fd.toInt) (thread : Nat) (autoCreate : Bool) :
    get s thread fd autoCreate = some (s.get thread (index fd) autoCreate) := by
  have hindex := index_lt_iff h fd
  have hne : ¬ fd = -1 := by
    rw [toInt_eq_neg_one]
    omega
  simp only [get, find, if_neg hne, h.size_le]
  by_cases hbeyond : (s.fds.length : Int) ≤ fd.toInt
  · have hnone : s.fds[index fd]? = none := List.getElem?_eq_none (by omega)
    simp only [if_pos hbeyond, FdManager.get, hnone]
    cases autoCreate <;> rfl
  · rw [if_neg hbeyond]
    obtain ⟨p, hp⟩ : ∃ p, s.fds[index fd]? = some p :=
      ⟨_, List.getElem?_eq_getElem (hindex.mpr ⟨hpos, by omega⟩)⟩
    simp only [FdManager.get, hp]
    cases p <;> cases autoCreate <;> rfl

/-- The vector after the growth, from 0 on. -/
theorem grown_eq (h : Sized s) (hpos : 0 ≤ fd.toInt) :
    grown s fd = if index fd < s.fds.length ∨ index fd * 2 < 2 ^ 31 then some (s.grown (index fd)) else none := by
  have hindex := index_lt_iff h fd
  have hfd : (index fd : Int) = fd.toInt := by
    rcases index_cases fd with ⟨-, heq⟩ | ⟨hneg, -⟩
    · exact heq
    · omega
  simp only [grown, h.size_le, FdManager.grown]
  by_cases hbeyond : (s.fds.length : Int) ≤ fd.toInt
  · have hle : s.fds.length ≤ index fd := by omega
    have htwo : (2 : Int32).toInt = 2 := by decide
    rw [if_pos hbeyond, if_pos hle]
    by_cases hfits : fd.toInt * 2 < 2 ^ 31
    · have htwice : (fd * 2).toInt = fd.toInt * 2 := by
        rw [Int32.toInt_mul, htwo]
        exact Int.bmod_eq_of_le (by omega) (by omega)
      have hindex₂ : index (fd * 2) = index fd * 2 := by
        rcases index_cases (fd * 2) with ⟨-, heq⟩ | ⟨hneg, -⟩ <;> omega
      rw [if_pos hfits, if_pos (.inr (by omega)), hindex₂, List.take_of_length_le (by omega)]
    · rw [if_neg hfits, if_neg (by omega)]
  · rw [if_neg hbeyond, if_pos (.inl (by omega)), if_neg (by omega)]

/-- For a negative descriptor the table does not grow. -/
theorem grown_of_neg (h : Sized s) (hneg : fd.toInt < 0) : grown s fd = some s.fds := by
  rw [grown, if_neg]
  rw [h.size_le]
  omega

/-- A grown table has the descriptor. -/
theorem index_lt_grown (h : Sized s) (n : Nat) : n < (s.grown n).length := by
  have hleast := h.least
  unfold FdManager.grown
  split
  · rw [List.length_append, List.length_replicate]
    omega
  · omega

/-- From 0 on, the creation is the one of `Hook.FdManager`, unless `fd * 2` overflows. -/
theorem create_eq (h : Sized s) (hpos : 0 ≤ fd.toInt) (thread : Nat) (stat : Option Bool) :
    create s thread fd stat =
      if index fd < s.fds.length ∨ index fd * 2 < 2 ^ 31 then some (s.create thread (index fd) stat) else none := by
  simp only [create, grown_eq h hpos]
  by_cases hfits : index fd < s.fds.length ∨ index fd * 2 < 2 ^ 31
  · rw [if_pos hfits, if_pos hfits]
    exact if_pos (index_lt_grown h (index fd))
  · rw [if_neg hfits, if_neg hfits]

/-- `create` of a negative descriptor is undefined. -/
theorem create_of_neg (h : Sized s) (hneg : fd.toInt < 0) (thread : Nat) (stat : Option Bool) :
    create s thread fd stat = none := by
  have hindex := index_lt_iff h fd
  simp only [create, grown_of_neg h hneg]
  exact if_neg (by omega)

/-- **A creation makes the vector long enough**, if the descriptor is within it or its double an `int`. -/
theorem create_long_enough (h : Sized s) (thread : Nat) (fd : Int32) (stat : Option Bool) :
    (∃ t, create s thread fd stat = some t ∧ fd.toInt < t.fds.length) ↔
      0 ≤ fd.toInt ∧ (fd.toInt < s.fds.length ∨ fd.toInt < 2 ^ 30) := by
  rcases index_cases fd with ⟨hpos, hindex⟩ | ⟨hneg, -⟩
  · rw [create_eq h hpos]
    have hlong : index fd < (s.create thread (index fd) stat).fds.length := by
      show index fd < ((s.grown (index fd)).set (index fd) _).length
      rw [List.length_set]
      exact index_lt_grown h (index fd)
    constructor
    · rintro ⟨t, ht, -⟩
      split at ht
      · exact ⟨hpos, by omega⟩
      · cases ht
    · rintro ⟨-, hfits⟩
      exact ⟨_, if_pos (by omega), by omega⟩
  · rw [create_of_neg h hneg]
    exact iff_of_false (by rintro ⟨t, ht, -⟩; cases ht) (by omega)

/-- From 0 on, `del` is the one of `Hook.FdManager`; on a negative descriptor it writes outside the vector. -/
theorem del_eq (h : Sized s) (fd : Int32) :
    del s fd = if 0 ≤ fd.toInt then some (s.del (index fd)) else none := by
  have hindex := index_lt_iff h fd
  simp only [del, h.size_le]
  by_cases hpos : 0 ≤ fd.toInt
  · rw [if_pos hpos]
    by_cases hbeyond : (s.fds.length : Int) ≤ fd.toInt
    · have hset : s.fds.set (index fd) none = s.fds := List.set_eq_of_length_le (by omega)
      rw [if_pos hbeyond, FdManager.del, hset]
    · rw [if_neg hbeyond, if_pos (by omega), FdManager.del]
  · rw [if_neg hpos, if_neg (by omega), if_neg (by omega)]

/-! ### The states reached -/

/-- The index of a descriptor in range. -/
theorem index_ofNat {n : Nat} (h : n < 2 ^ 31) : index (Int32.ofNat n) = n ∧ 0 ≤ (Int32.ofNat n).toInt := by
  have hint := Int32.toInt_ofNat_of_lt h
  rcases index_cases (Int32.ofNat n) with ⟨-, heq⟩ | ⟨hneg, -⟩ <;> omega

/-- `get` of a negative descriptor leaves the table. -/
theorem get_of_neg (h : Sized s) (hneg : fd.toInt < 0) {autoCreate : Bool}
    (hget : get s thread fd autoCreate = some t) : t = s := by
  have hle : -1 ≤ fd.toInt := by
    rw [← find_isSome h fd autoCreate]
    unfold get at hget
    split at hget
    · cases hget
    · rename_i hfind
      exact hfind ▸ rfl
    · rename_i hfind
      exact hfind ▸ rfl
  obtain rfl : fd = -1 := toInt_eq_neg_one.mpr (by omega)
  exact (Option.some.inj hget).symm

/-- **A step is one of `Hook.FdManager`**, or changes nothing. -/
theorem next_refines (h : Sized s) {move : Move} (hnext : next s move = some t) :
    t = s ∨ ∃ move', s.next move' = some t := by
  cases move with
  | get thread fd autoCreate =>
    simp only [next] at hnext
    split at hnext
    · rename_i hidle
      rcases index_cases fd with ⟨hpos, -⟩ | ⟨hneg, -⟩
      · rw [get_eq h hpos] at hnext
        exact .inr ⟨.get thread (index fd) autoCreate, (if_pos hidle).trans hnext⟩
      · exact .inl (get_of_neg h hneg hnext)
    · cases hnext
  | create thread stat =>
    simp only [next] at hnext
    split at hnext
    · rename_i n hplace
      obtain ⟨hindex, hpos⟩ := index_ofNat (h.pending thread n hplace)
      rw [create_eq h hpos, hindex] at hnext
      refine .inr ⟨.create thread stat, ?_⟩
      simp only [FdManager.next, hplace]
      exact hnext
    · cases hnext
  | del thread fd =>
    simp only [next] at hnext
    split at hnext
    · rename_i hidle
      rw [del_eq h] at hnext
      split at hnext
      · exact .inr ⟨.del thread (index fd), (if_pos hidle).trans hnext⟩
      · cases hnext
    · cases hnext
  | setTimeout p type v => exact .inr ⟨.setTimeout p type v, hnext⟩
  | setUserNonBlock p v => exact .inr ⟨.setUserNonBlock p v, hnext⟩

/-- A thread's move keeps the size in range. -/
theorem Sized.go (h : Sized s) {place : Place} (hfds : t.fds = s.fds)
    (hthreads : t.threads = Function.update s.threads thread place)
    (hplace : ∀ fd, place = .create fd → fd < 2 ^ 31) : Sized t := by
  refine ⟨hfds ▸ h.least, hfds ▸ h.fits, fun thread' fd hpending => ?_⟩
  rw [hthreads] at hpending
  by_cases heq : thread' = thread
  · rw [heq, Function.update_self] at hpending
    exact hplace fd hpending
  · rw [Function.update_of_ne heq] at hpending
    exact h.pending thread' fd hpending

/-- So does a step that leaves the table's length. -/
theorem Sized.same (h : Sized s) (hfds : t.fds.length = s.fds.length) (hthreads : t.threads = s.threads) : Sized t :=
  ⟨hfds ▸ h.least, hfds ▸ h.fits, hthreads ▸ h.pending⟩

/-- So does `get`. -/
theorem Sized.get (h : Sized s) {n : Nat} (hn : n < 2 ^ 31) (thread : Nat) (autoCreate : Bool) :
    Sized (s.get thread n autoCreate) := by
  have hgo : Sized (s.go thread (.create n)) := by
    refine h.go rfl rfl ?_
    rintro fd heq
    obtain rfl := Place.create.inj heq
    exact hn
  unfold FdManager.get
  split
  · split
    · exact hgo
    · exact h.same rfl rfl
  · split
    · exact h.same rfl rfl
    · exact hgo

/-- So does `create`. -/
theorem Sized.create (h : Sized s) {n : Nat} (hn : n < s.fds.length ∨ n * 2 < 2 ^ 31) (thread : Nat)
    (stat : Option Bool) : Sized (s.create thread n stat) := by
  have hgrown : 64 ≤ (s.grown n).length ∧ (s.grown n).length < 2 ^ 31 := by
    have hleast := h.least
    have hfits := h.fits
    unfold FdManager.grown
    split
    · rw [List.length_append, List.length_replicate]
      omega
    · omega
  have hsized : Sized { s with fds := (s.grown n).set n (some s.heap.length) } := by
    refine ⟨?_, ?_, h.pending⟩
    · exact (List.length_set ..).symm ▸ hgrown.1
    · exact (List.length_set ..).symm ▸ hgrown.2
  exact hsized.go rfl rfl nofun

/-- **Every step keeps the size an `int`.** -/
theorem Sized.next (h : Sized s) {move : Move} (hnext : next s move = some t) : Sized t := by
  cases move with
  | get thread fd autoCreate =>
    simp only [Bounds.next] at hnext
    split at hnext
    · rcases index_cases fd with ⟨hpos, hindex⟩ | ⟨hneg, -⟩
      · rw [get_eq h hpos] at hnext
        obtain rfl := Option.some.inj hnext
        have hmax := fd.toInt_lt
        exact h.get (by omega) thread autoCreate
      · exact (get_of_neg h hneg hnext) ▸ h
    · cases hnext
  | create thread stat =>
    simp only [Bounds.next] at hnext
    split at hnext
    · rename_i n hplace
      obtain ⟨hindex, hpos⟩ := index_ofNat (h.pending thread n hplace)
      rw [create_eq h hpos, hindex] at hnext
      split at hnext
      · rename_i hfits
        obtain rfl := Option.some.inj hnext
        exact h.create hfits thread stat
      · cases hnext
    · cases hnext
  | del thread fd =>
    simp only [Bounds.next] at hnext
    split at hnext
    · rw [del_eq h] at hnext
      split at hnext
      · obtain rfl := Option.some.inj hnext
        exact h.same (List.length_set ..) rfl
      · cases hnext
    · cases hnext
  | setTimeout p type v =>
    obtain rfl := Option.some.inj hnext
    exact h.same rfl rfl
  | setUserNonBlock p v =>
    obtain rfl := Option.some.inj hnext
    exact h.same rfl rfl

/-- The size is in range in every run. -/
theorem sized_run {ok : FdManager → Move → Prop} {moves : List Move} (hrun : system.Run ok moves s) : Sized s := by
  refine hrun.invariant (I := fun _ s => Sized s) ⟨by decide, by decide, fun _ _ hplace => Place.noConfusion hplace⟩ ?_
  exact fun _ _ _ _ h _ hnext => h.next hnext

/-- **The states reached are those of `Hook.FdManager`.** -/
theorem run_refines {moves : List Move} (hrun : system.Run anyStep moves s) :
    ∃ moves', Fds.system.Run anyStep moves' s := by
  induction hrun with
  | start => exact ⟨[], .start⟩
  | step hrun _ hnext ih =>
    obtain ⟨moves', hrun'⟩ := ih
    rcases next_refines (sized_run hrun) hnext with rfl | ⟨move', hmove⟩
    · exact ⟨moves', hrun'⟩
    · exact ⟨moves' ++ [move'], hrun'.step trivial hmove⟩

/-- A context that is found is that of a descriptor within the vector. -/
theorem within_of_find (h : Sized s) {p : Nat} {autoCreate : Bool}
    (hfind : find s fd autoCreate = some (.returned (some p))) : 0 ≤ fd.toInt ∧ fd.toInt < s.fds.length := by
  unfold find at hfind
  split at hfind
  · cases hfind
  · split at hfind
    · split at hfind <;> cases hfind
    · split at hfind
      · cases hfind
      · rename_i q hq
        exact (index_lt_iff h fd).mp (List.getElem?_eq_some_iff.mp hq).1

/-- A hooked call that looks the context up stays within the vector from -1 on. -/
theorem hooked_isSome (h : Sized s) (hookEnable : Bool) (fd : Int32) (call : Call) :
    (hooked s hookEnable fd call).isSome ↔ call.looksUp hookEnable = false ∨ -1 ≤ fd.toInt := by
  have hfind := find_isSome h fd false
  unfold hooked
  cases hlooks : call.looksUp hookEnable with
  | false => simp
  | true =>
    cases hfound : find s fd false with
    | none =>
      rw [hfound] at hfind
      simpa using hfind
    | some found =>
      rw [hfound] at hfind
      refine iff_of_true ?_ (.inr (hfind.mp rfl))
      match found with
      | .returned none | .toCreate => rfl
      | .returned (some p) =>
        have hdel : (del s fd).isSome = true := by rw [del_eq h, if_pos (within_of_find h hfound).1]; rfl
        simp only [Bool.not_true, Bool.false_eq_true, if_false]
        split
        · exact hdel
        · rfl

/-- **The accesses are in bounds exactly from -1 on**, and from 0 on for `del`; after `get(fd, true)` the vector is
long enough if the context was found, and if it is created, exactly for a descriptor within the vector or
below `2^30`. -/
theorem bounds_iff (moves : List Move) (s : FdManager) (hrun : system.Run anyStep moves s) (fd : Int32) :
    (∀ autoCreate, (find s fd autoCreate).isSome ↔ -1 ≤ fd.toInt) ∧
    (∀ p, find s fd true = some (.returned (some p)) → fd.toInt < s.fds.length) ∧
    (∀ thread stat, (∃ t, create s thread fd stat = some t ∧ fd.toInt < t.fds.length) ↔
      0 ≤ fd.toInt ∧ (fd.toInt < s.fds.length ∨ fd.toInt < 2 ^ 30)) ∧
    ((del s fd).isSome ↔ 0 ≤ fd.toInt) ∧
    ∀ hookEnable call, (hooked s hookEnable fd call).isSome ↔
      call.looksUp hookEnable = false ∨ -1 ≤ fd.toInt := by
  have h := sized_run hrun
  refine ⟨find_isSome h fd, fun p hfind => (within_of_find h hfind).2,
    fun thread stat => create_long_enough h thread fd stat, ?_,
    fun hookEnable call => hooked_isSome h hookEnable fd call⟩
  rw [del_eq h]
  split
  · rename_i hpos
    exact iff_of_true rfl hpos
  · rename_i hneg
    exact iff_of_false nofun hneg

/-- The statement at a table of 64 slots and descriptor 70. -/
theorem bounds_iff_seventy : ∃ s, system.Run anyStep [.get 0 70 true, .create 0 (some true)] s ∧
    (find s 70 true).isSome ∧ (del s 70).isSome ∧ (hooked s true 70 .close).isSome ∧
    ∃ t, create s 1 100 none = some t ∧ (100 : Int32).toInt < t.fds.length := by
  have hrun : system.Run anyStep [.get 0 70 true, .create 0 (some true)]
      ((FdManager.new.get 0 70 true).create 0 70 (some true)) :=
    (System.Run.start.step trivial rfl).step trivial rfl
  obtain ⟨hfind, -, -, hdel, hhooked⟩ := bounds_iff _ _ hrun 70
  obtain ⟨-, -, hcreate, -, -⟩ := bounds_iff _ _ hrun 100
  exact ⟨_, hrun, (hfind true).mpr (by decide), hdel.mpr (by decide), (hhooked true .close).mpr (by decide),
    (hcreate 1 none).mpr (by decide)⟩

/-- **Negative descriptors index outside the vector**: `close(-2)` looks up the entry -2, `del(-1)` resets the entry
-1; and the size for the descriptor `2^30` overflows. -/
theorem outside_the_table : system.Run anyStep [] FdManager.new ∧
    find .new (-2) false = none ∧ find .new (-2) true = none ∧ hooked .new true (-2) .close = none ∧
    hooked .new true (-2) .doIo = none ∧ del .new (-1) = none ∧ create .new 0 1073741824 (some true) = none := by
  exact ⟨.start, by decide, by decide, rfl, rfl, rfl, rfl⟩

end Bounds
end Wuchat
