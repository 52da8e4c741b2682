/-
# The pool of connections

`HttpConnectionPool` of `http_connection.cpp`: `getConnection` takes connections off the idle list
under the lock until one may be used, deletes the others without it, and makes a new connection
when there is none; the pointer it returns calls `ReleasePtr`, which puts the connection back or
deletes it.  `m_total` is adjusted at points of its own, outside the lock.

Callers run side by side, and every use of the shared state is a step of its own: an iteration of the
loop under the lock, a `delete`, a change of `m_total`, the test in `ReleasePtr`.  A connection may
be dropped at any time, and a returned pointer handed on.  A connection is its index among all that
were made.

Every pointer is in one place: in the idle list, with one caller (as a pointer it was returned or in a
variable of the call it is in), or deleted.  `Balanced` counts the places, and `m_total` with what
the calls in progress have still to adjust.
-/

import Mathlib.Data.List.Count
import Wuchat.Foundation.Places
import Wuchat.Foundation.System

namespace Wuchat
namespace Http
namespace ConnectionPool

open Foundation

/-- `HttpConnection`; `born` is when it was made, for the proofs. -/
structure HttpConnection where
  m_createTime : UInt64
  m_request : UInt64
  connected : Bool
  born : UInt64
  deriving DecidableEq, Repr

/-- Where a caller is: outside the pool; in `getConnection` before the lock, in the loop under the lock,
at the connections to delete, before `connect` and before `++m_total`; in `ReleasePtr` at its
start, before the test, before `delete`, before `--m_total` and before the lock. -/
inductive Point
  | out
  | waiting (now : UInt64)
  | scanning (now : UInt64) (invalid_conns : List Nat)
  | deleting (todo : List Nat) (size : Nat) (ptr : Option Nat)
  | connecting
  | created (ptr : Nat)
  | releasing (ptr : Nat)
  | checking (ptr : Nat)
  | doomed (ptr : Nat)
  | uncounting
  | pushing (ptr : Nat)
  deriving DecidableEq, Repr

/-- A caller, with the pointers it was returned and has not released. -/
structure Caller where
  held : List Nat
  point : Point
  deriving DecidableEq, Repr

/-- `HttpConnectionPool`, with the connections ever made, those deleted, and the callers. -/
structure Pool where
  m_coons : List Nat
  m_total : UInt32
  lock : Option Nat
  conns : List HttpConnection
  deleted : List Nat
  callers : List Caller
  deriving DecidableEq, Repr

/-- The steps: those of the caller `i`, a pointer handed on, and a connection that is dropped. -/
inductive Move
  | getConnection (i : Nat) (now : UInt64)
  | lock (i : Nat)
  | scan (i : Nat)
  | delete (i : Nat)
  | uncount (i : Nat)
  | connect (i : Nat) (ok : Bool) (now : UInt64)
  | count (i : Nat)
  | release (i : Nat) (ptr : Nat)
  | bump (i : Nat)
  | check (i : Nat) (now : UInt64)
  | push (i : Nat)
  | pass (i j : Nat) (ptr : Nat)
  | drop (ptr : Nat)
  deriving DecidableEq, Repr

namespace Pool

/-- A caller goes on. -/
def go (i : Nat) (held : List Nat) (point : Point) (s : Pool) : Pool :=
  { s with callers := s.callers.set i ⟨held, point⟩ }

/-- One iteration of the loop in `getConnection`, or its end. -/
def scan (maxAliveTime : UInt32) (i : Nat) (held : List Nat) (now : UInt64) (invalid_conns : List Nat) (s : Pool) :
    Option Pool :=
  match s.m_coons with
  | [] => some { s.go i held (.deleting invalid_conns invalid_conns.length none) with lock := none }
  | conn :: rest =>
    match s.conns[conn]? with
    | none => none
    | some c =>
      if c.connected = false ∨ now < c.m_createTime + maxAliveTime.toUInt64 then
        some { s.go i held (.scanning now (invalid_conns ++ [conn])) with m_coons := rest }
      else
        some { s.go i held (.deleting invalid_conns invalid_conns.length (some conn)) with
          m_coons := rest, lock := none }

/-- The state after a step. -/
def next (maxAliveTime maxRequest : UInt32) (s : Pool) : Move → Option Pool
  | .getConnection i now =>
    match s.callers[i]? with
    | some ⟨held, .out⟩ => some (s.go i held (.waiting now))
    | _ => none
  | .lock i =>
    match s.callers[i]?, s.lock with
    | some ⟨held, .waiting now⟩, none => some { s.go i held (.scanning now []) with lock := some i }
    | _, _ => none
  | .scan i =>
    match s.callers[i]? with
    | some ⟨held, .scanning now invalid_conns⟩ => s.scan maxAliveTime i held now invalid_conns
    | _ => none
  | .delete i =>
    match s.callers[i]? with
    | some ⟨held, .deleting (conn :: todo) size ptr⟩ =>
      some { s.go i held (.deleting todo size ptr) with deleted := s.deleted ++ [conn] }
    | some ⟨held, .doomed ptr⟩ => some { s.go i held .uncounting with deleted := s.deleted ++ [ptr] }
    | _ => none
  | .uncount i =>
    match s.callers[i]? with
    | some ⟨held, .deleting [] size none⟩ =>
      some { s.go i held .connecting with m_total := s.m_total - UInt32.ofNat size }
    | some ⟨held, .deleting [] size (some ptr)⟩ =>
      some { s.go i (held ++ [ptr]) .out with m_total := s.m_total - UInt32.ofNat size }
    | some ⟨held, .uncounting⟩ => some { s.go i held .out with m_total := s.m_total - 1 }
    | _ => none
  | .connect i ok now =>
    match s.callers[i]? with
    | some ⟨held, .connecting⟩ =>
      if ok then
        some { s.go i held (.created s.conns.length) with conns := s.conns ++ [⟨0, 0, true, now⟩] }
      else some (s.go i held .out)
    | _ => none
  | .count i =>
    match s.callers[i]? with
    | some ⟨held, .created ptr⟩ => some { s.go i (held ++ [ptr]) .out with m_total := s.m_total + 1 }
    | _ => none
  | .release i ptr =>
    match s.callers[i]? with
    | some ⟨held, .out⟩ => if ptr ∈ held then some (s.go i (held.erase ptr) (.releasing ptr)) else none
    | _ => none
  | .bump i =>
    match s.callers[i]? with
    | some ⟨held, .releasing ptr⟩ =>
      some { s.go i held (.checking ptr) with
        conns := s.conns.modify ptr fun c => { c with m_request := c.m_request + 1 } }
    | _ => none
  | .check i now =>
    match s.callers[i]? with
    | some ⟨held, .checking ptr⟩ =>
      match s.conns[ptr]? with
      | none => none
      | some c =>
        if c.connected = false ∨ now ≤ c.m_createTime + maxAliveTime.toUInt64 ∨
            maxRequest.toUInt64 ≤ c.m_request then some (s.go i held (.doomed ptr))
        else some (s.go i held (.pushing ptr))
    | _ => none
  | .push i =>
    match s.callers[i]?, s.lock with
    | some ⟨held, .pushing ptr⟩, none => some { s.go i held .out with m_coons := s.m_coons ++ [ptr] }
    | _, _ => none
  | .pass i j ptr =>
    match s.callers[i]?, s.callers[j]? with
    | some ⟨held, point⟩, some ⟨held', point'⟩ =>
      if i ≠ j ∧ ptr ∈ held then some ((s.go i (held.erase ptr) point).go j (held' ++ [ptr]) point') else none
    | _, _ => none
  | .drop ptr => some { s with conns := s.conns.modify ptr fun c => { c with connected := false } }

/-- What a step does, with what it needs: one constructor for each way a move goes on. -/
inductive Step (maxAliveTime maxRequest : UInt32) (s : Pool) : Move → Pool → Prop
  | getConnection {i : Nat} {held : List Nat} (now : UInt64) (hx : s.callers[i]? = some ⟨held, .out⟩) :
      Step maxAliveTime maxRequest s (.getConnection i now) (s.go i held (.waiting now))
  | lock {i : Nat} {held : List Nat} {now : UInt64} (hx : s.callers[i]? = some ⟨held, .waiting now⟩)
      (hfree : s.lock = none) :
      Step maxAliveTime maxRequest s (.lock i) { s.go i held (.scanning now []) with lock := some i }
  | scan {i : Nat} {held invalid_conns : List Nat} {now : UInt64} {t : Pool}
      (hx : s.callers[i]? = some ⟨held, .scanning now invalid_conns⟩)
      (hscan : s.scan maxAliveTime i held now invalid_conns = some t) : Step maxAliveTime maxRequest s (.scan i) t
  | deleteInvalid {i conn size : Nat} {held todo : List Nat} {ptr : Option Nat}
      (hx : s.callers[i]? = some ⟨held, .deleting (conn :: todo) size ptr⟩) :
      Step maxAliveTime maxRequest s (.delete i)
        { s.go i held (.deleting todo size ptr) with deleted := s.deleted ++ [conn] }
  | deleteDoomed {i ptr : Nat} {held : List Nat} (hx : s.callers[i]? = some ⟨held, .doomed ptr⟩) :
      Step maxAliveTime maxRequest s (.delete i) { s.go i held .uncounting with deleted := s.deleted ++ [ptr] }
  | noneLeft {i size : Nat} {held : List Nat} (hx : s.callers[i]? = some ⟨held, .deleting [] size none⟩) :
      Step maxAliveTime maxRequest s (.uncount i)
        { s.go i held .connecting with m_total := s.m_total - UInt32.ofNat size }
  | handOut {i size ptr : Nat} {held : List Nat}
      (hx : s.callers[i]? = some ⟨held, .deleting [] size (some ptr)⟩) :
      Step maxAliveTime maxRequest s (.uncount i)
        { s.go i (held ++ [ptr]) .out with m_total := s.m_total - UInt32.ofNat size }
  | uncount {i : Nat} {held : List Nat} (hx : s.callers[i]? = some ⟨held, .uncounting⟩) :
      Step maxAliveTime maxRequest s (.uncount i) { s.go i held .out with m_total := s.m_total - 1 }
  | connect {i : Nat} {held : List Nat} (now : UInt64) (hx : s.callers[i]? = some ⟨held, .connecting⟩) :
      Step maxAliveTime maxRequest s (.connect i true now)
        { s.go i held (.created s.conns.length) with conns := s.conns ++ [⟨0, 0, true, now⟩] }
  | noConnection {i : Nat} {held : List Nat} (now : UInt64) (hx : s.callers[i]? = some ⟨held, .connecting⟩) :
      Step maxAliveTime maxRequest s (.connect i false now) (s.go i held .out)
  | count {i ptr : Nat} {held : List Nat} (hx : s.callers[i]? = some ⟨held, .created ptr⟩) :
      Step maxAliveTime maxRequest s (.count i)
        { s.go i (held ++ [ptr]) .out with m_total := s.m_total + 1 }
  | release {i ptr : Nat} {held : List Nat} (hx : s.callers[i]? = some ⟨held, .out⟩) (hmem : ptr ∈ held) :
      Step maxAliveTime maxRequest s (.release i ptr) (s.go i (held.erase ptr) (.releasing ptr))
  | bump {i ptr : Nat} {held : List Nat} (hx : s.callers[i]? = some ⟨held, .releasing ptr⟩) :
      Step maxAliveTime maxRequest s (.bump i)
        { s.go i held (.checking ptr) with
          conns := s.conns.modify ptr fun c => { c with m_request := c.m_request + 1 } }
  | doom {i ptr : Nat} {held : List Nat} {c : HttpConnection} {now : UInt64}
      (hx : s.callers[i]? = some ⟨held, .checking ptr⟩) (hc : s.conns[ptr]? = some c)
      (hinvalid : c.connected = false ∨ now ≤ c.m_createTime + maxAliveTime.toUInt64 ∨
        maxRequest.toUInt64 ≤ c.m_request) :
      Step maxAliveTime maxRequest s (.check i now) (s.go i held (.doomed ptr))
  | keep {i ptr : Nat} {held : List Nat} {c : HttpConnection} {now : UInt64}
      (hx : s.callers[i]? = some ⟨held, .checking ptr⟩) (hc : s.conns[ptr]? = some c)
      (hvalid : ¬ (c.connected = false ∨ now ≤ c.m_createTime + maxAliveTime.toUInt64 ∨
        maxRequest.toUInt64 ≤ c.m_request)) :
      Step maxAliveTime maxRequest s (.check i now) (s.go i held (.pushing ptr))
  | push {i ptr : Nat} {held : List Nat} (hx : s.callers[i]? = some ⟨held, .pushing ptr⟩)
      (hfree : s.lock = none) :
      Step maxAliveTime maxRequest s (.push i) { s.go i held .out with m_coons := s.m_coons ++ [ptr] }
  | pass {i j ptr : Nat} {held held' : List Nat} {point point' : Point}
      (hi : s.callers[i]? = some ⟨held, point⟩) (hj : s.callers[j]? = some ⟨held', point'⟩) (hne : i ≠ j)
      (hmem : ptr ∈ held) :
      Step maxAliveTime maxRequest s (.pass i j ptr)
        ((s.go i (held.erase ptr) point).go j (held' ++ [ptr]) point')
  | drop (ptr : Nat) :
      Step maxAliveTime maxRequest s (.drop ptr)
        { s with conns := s.conns.modify ptr fun c => { c with connected := false } }

/-- **Every step is one of these.** -/
theorem step_of_next {maxAliveTime maxRequest : UInt32} {s t : Pool} {m : Move}
    (hnext : s.next maxAliveTime maxRequest m = some t) : s.Step maxAliveTime maxRequest m t := by
  cases m with
  | getConnection i now =>
    rw [next] at hnext
    split at hnext
    · obtain rfl := Option.some.inj hnext
      exact .getConnection now ‹_›
    · cases hnext
  | lock i =>
    rw [next] at hnext
    split at hnext
    · obtain rfl := Option.some.inj hnext
      exact .lock ‹_› ‹_›
    · cases hnext
  | scan i =>
    rw [next] at hnext
    split at hnext
    · exact .scan ‹_› hnext
    · cases hnext
  | delete i =>
    rw [next] at hnext
    split at hnext
    · obtain rfl := Option.some.inj hnext
      exact .deleteInvalid ‹_›
    · obtain rfl := Option.some.inj hnext
      exact .deleteDoomed ‹_›
    · cases hnext
  | uncount i =>
    rw [next] at hnext
    split at hnext
    · obtain rfl := Option.some.inj hnext
      exact .noneLeft ‹_›
    · obtain rfl := Option.some.inj hnext
      exact .handOut ‹_›
    · obtain rfl := Option.some.inj hnext
      exact .uncount ‹_›
    · cases hnext
  | connect i ok now =>
    rw [next] at hnext
    split at hnext
    · cases ok with
      | true =>
        obtain rfl := Option.some.inj hnext
        exact .connect now ‹_›
      | false =>
        obtain rfl := Option.some.inj hnext
        exact .noConnection now ‹_›
    · cases hnext
  | count i =>
    rw [next] at hnext
    split at hnext
    · obtain rfl := Option.some.inj hnext
      exact .count ‹_›
    · cases hnext
  | release i ptr =>
    rw [next] at hnext
    split at hnext
    · obtain ⟨hmem, ⟨⟩⟩ := Option.ite_none_right_eq_some.mp hnext
      exact .release ‹_› hmem
    · cases hnext
  | bump i =>
    rw [next] at hnext
    split at hnext
    · obtain rfl := Option.some.inj hnext
      exact .bump ‹_›
    · cases hnext
  | check i now =>
    rw [next] at hnext
    split at hnext
    · split at hnext
      · cases hnext
      split at hnext
      · obtain rfl := Option.some.inj hnext
        exact .doom ‹_› ‹_› ‹_›
      · obtain rfl := Option.some.inj hnext
        exact .keep ‹_› ‹_› ‹_›
    · cases hnext
  | push i =>
    rw [next] at hnext
    split at hnext
    · obtain rfl := Option.some.inj hnext
      exact .push ‹_› ‹_›
    · cases hnext
  | pass i j ptr =>
    rw [next] at hnext
    split at hnext
    · obtain ⟨hpass, ⟨⟩⟩ := Option.ite_none_right_eq_some.mp hnext
      exact .pass ‹_› ‹_› hpass.1 hpass.2
    · cases hnext
  | drop ptr =>
    obtain rfl := Option.some.inj hnext
    exact .drop ptr

end Pool

/-- A new pool with `n` callers. -/
def system (maxAliveTime maxRequest : UInt32) (n : Nat) : System Pool Move where
  init := ⟨[], 0, none, [], [], List.replicate n ⟨[], .out⟩⟩
  next s := s.next maxAliveTime maxRequest

/-! ### Where the pointers are -/

/-- The pointers in the variables of a call. -/
def Point.ptrs : Point → List Nat
  | out => []
  | waiting _ => []
  | scanning _ invalid_conns => invalid_conns
  | deleting todo _ ptr => todo ++ ptr.toList
  | connecting => []
  | created ptr => [ptr]
  | releasing ptr => [ptr]
  | checking ptr => [ptr]
  | doomed ptr => [ptr]
  | uncounting => []
  | pushing ptr => [ptr]

/-- The pointers of a caller. -/
def Caller.own (k : Caller) : List Nat := k.held ++ k.point.ptrs

/-- How many connections of a call `m_total` counts. -/
def Point.counted : Point → Nat
  | out => 0
  | waiting _ => 0
  | scanning _ invalid_conns => invalid_conns.length
  | deleting _ size ptr => size + ptr.toList.length
  | connecting => 0
  | created _ => 0
  | releasing _ => 1
  | checking _ => 1
  | doomed _ => 1
  | uncounting => 1
  | pushing _ => 1

/-- How many connections of a caller `m_total` counts. -/
def Caller.counted (k : Caller) : Nat := k.held.length + k.point.counted

/-- In how many places the connection is. -/
def Pool.places (s : Pool) (c : Nat) : Nat :=
  s.m_coons.count c + (s.callers.map fun k => k.own.count c).sum + s.deleted.count c

/-- Whether the connection was made. -/
def Pool.made (s : Pool) (c : Nat) : Nat := if c < s.conns.length then 1 else 0

/-- **Every connection that was made is in one place**, no other one is anywhere, and `m_total` counts the
idle ones and what the callers account for. -/
structure Balanced (s : Pool) : Prop where
  once : ∀ c, s.places c = s.made c
  total : s.m_total = UInt32.ofNat (s.m_coons.length + (s.callers.map Caller.counted).sum)

variable {maxAliveTime maxRequest : UInt32} {s t : Pool} {i : Nat} {x y : Caller}

/-- Which connections were made depends on their number alone. -/
theorem made_congr (h : t.conns.length = s.conns.length) (c : Nat) : t.made c = s.made c := by
  rw [Pool.made, Pool.made, h]

/-- **A step of one caller keeps the balance** when what it moves stays in one place and `m_total` changes,
by `b` less `a`, with what it accounts for. -/
theorem Balanced.go {a b : Nat} (h : Balanced s) (hx : s.callers[i]? = some x)
    (hcallers : t.callers = s.callers.set i y)
    (hplaces : ∀ c, t.m_coons.count c + y.own.count c + t.deleted.count c + s.made c =
      s.m_coons.count c + x.own.count c + s.deleted.count c + t.made c)
    (hcounted : s.m_coons.length + x.counted + b = t.m_coons.length + y.counted + a)
    (htotal : t.m_total + UInt32.ofNat a = s.m_total + UInt32.ofNat b) : Balanced t := by
  constructor
  · intro c
    have hsum := sum_map_set (fun k : Caller => k.own.count c) hx y
    have honce := h.once c
    have hmoved := hplaces c
    rw [Pool.places] at honce ⊢
    rw [hcallers]
    omega
  · have hsum := sum_map_set Caller.counted hx y
    have hbefore := congrArg UInt32.toNat h.total
    have hstep := congrArg UInt32.toNat htotal
    rw [hcallers, ← UInt32.toNat_inj]
    simp only [UInt32.toNat_add, UInt32.toNat_ofNat'] at hbefore hstep ⊢
    have hlt := t.m_total.toNat_lt
    omega

/-- A step of one caller that makes no connection. -/
theorem Balanced.moves {a b : Nat} (h : Balanced s) (hx : s.callers[i]? = some x)
    (hcallers : t.callers = s.callers.set i y)
    (hconns : t.conns.length = s.conns.length)
    (hplaces : (t.m_coons ++ (y.own ++ t.deleted)).Perm (s.m_coons ++ (x.own ++ s.deleted)))
    (hcounted : s.m_coons.length + x.counted + b = t.m_coons.length + y.counted + a)
    (htotal : t.m_total + UInt32.ofNat a = s.m_total + UInt32.ofNat b) : Balanced t := by
  refine h.go hx hcallers (fun c => ?_) hcounted htotal
  have hcount := hplaces.count_eq c
  rw [List.count_append, List.count_append, List.count_append, List.count_append] at hcount
  rw [made_congr hconns]
  omega

/-- A step of one caller that leaves the idle list, `m_total` and the deleted connections. -/
theorem Balanced.within (h : Balanced s) (hx : s.callers[i]? = some x) (hcallers : t.callers = s.callers.set i y)
    (hcoons : t.m_coons = s.m_coons) (hdeleted : t.deleted = s.deleted) (htotal : t.m_total = s.m_total)
    (hconns : t.conns.length = s.conns.length) (hown : y.own.Perm x.own) (hcounted : y.counted = x.counted) :
    Balanced t := by
  refine h.moves (a := 0) (b := 0) hx hcallers hconns ?_ ?_ ?_
  · rw [hcoons, hdeleted]
    exact (hown.append_right _).append_left _
  · rw [hcoons, hcounted]
  · rw [htotal]

/-- A pointer taken out of those held. -/
theorem count_erase_append {held : List Nat} {ptr : Nat} (h : ptr ∈ held) (rest : List Nat) :
    (held.erase ptr ++ (ptr :: rest)).Perm (held ++ rest) := by
  refine List.perm_middle.trans ?_
  exact (List.perm_cons_erase h).symm.append_right rest

/-- An idle connection taken by a caller, as its last pointer. -/
theorem perm_taken (conn : Nat) (rest own deleted : List Nat) :
    (rest ++ ((own ++ [conn]) ++ deleted)).Perm (conn :: rest ++ (own ++ deleted)) := by
  rw [List.perm_iff_count]
  intro c
  simp only [List.count_append, List.count_cons, List.count_nil]
  omega

/-- A pointer of a caller that is deleted. -/
theorem perm_deleted (conn : Nat) (coons before after deleted : List Nat) :
    (coons ++ ((before ++ after) ++ (deleted ++ [conn]))).Perm
      (coons ++ ((before ++ conn :: after) ++ deleted)) := by
  rw [List.perm_iff_count]
  intro c
  simp only [List.count_append, List.count_cons, List.count_nil]
  omega

/-- **The loop under the lock keeps the balance.** -/
theorem Balanced.scan (h : Balanced s) {held invalid_conns : List Nat} {now : UInt64}
    (hx : s.callers[i]? = some ⟨held, .scanning now invalid_conns⟩)
    (hscan : s.scan maxAliveTime i held now invalid_conns = some t) : Balanced t := by
  rw [Pool.scan] at hscan
  split at hscan
  · obtain rfl := Option.some.inj hscan
    refine h.within hx rfl rfl rfl rfl rfl ?_ rfl
    simp [Caller.own, Point.ptrs]
  rename_i conn rest hcoons
  split at hscan
  · cases hscan
  -- in both cases the connection goes from the list to the variables of the call
  have htaken := perm_taken conn rest (held ++ invalid_conns) s.deleted
  rw [← hcoons] at htaken
  rw [List.append_assoc held] at htaken
  have hlen : s.m_coons.length = rest.length + 1 := by
    rw [hcoons, List.length_cons]
  split at hscan
  · obtain rfl := Option.some.inj hscan
    refine h.moves (a := 0) (b := 0) hx rfl rfl htaken ?_ rfl
    simp only [Caller.counted, Point.counted, List.length_append, List.length_singleton]
    omega
  · obtain rfl := Option.some.inj hscan
    refine h.moves (a := 0) (b := 0) hx rfl rfl htaken ?_ rfl
    simp only [Caller.counted, Point.counted, Option.toList_some, List.length_singleton]
    omega

/-- **A pointer handed on keeps the balance.** -/
theorem Balanced.pass (h : Balanced s) {j ptr : Nat} {held held' : List Nat} {point point' : Point}
    (hi : s.callers[i]? = some ⟨held, point⟩) (hj : s.callers[j]? = some ⟨held', point'⟩) (hne : i ≠ j)
    (hmem : ptr ∈ held) : Balanced ((s.go i (held.erase ptr) point).go j (held' ++ [ptr]) point') := by
  have hj' : (s.callers.set i ⟨held.erase ptr, point⟩)[j]? = some ⟨held', point'⟩ := by
    rw [List.getElem?_set_ne hne, hj]
  constructor
  · intro c
    have honce := h.once c
    have hsum₁ := sum_map_set (fun k : Caller => k.own.count c) hi ⟨held.erase ptr, point⟩
    have hsum₂ := sum_map_set (fun k : Caller => k.own.count c) hj' ⟨held' ++ [ptr], point'⟩
    have herase := (List.perm_cons_erase hmem).count_eq c
    simp only [Caller.own, List.count_append, List.count_cons, List.count_nil] at hsum₁ hsum₂ herase
    change Pool.places _ c = s.made c
    rw [Pool.places] at honce ⊢
    simp only [Pool.go, Caller.own, List.count_append] at honce ⊢
    omega
  · have hsum₁ := sum_map_set Caller.counted hi ⟨held.erase ptr, point⟩
    have hsum₂ := sum_map_set Caller.counted hj' ⟨held' ++ [ptr], point'⟩
    have hlen := (List.perm_cons_erase hmem).length_eq
    simp only [Caller.counted, List.length_append, List.length_cons, List.length_nil] at hsum₁ hsum₂ hlen
    have htotal := h.total
    dsimp only [Pool.go]
    rw [htotal]
    congr 2
    omega

/-- **Every step keeps the balance.** -/
theorem Balanced.next (h : Balanced s) {m : Move} (hnext : s.next maxAliveTime maxRequest m = some t) :
    Balanced t := by
  cases Pool.step_of_next hnext with
  | getConnection _ hx | lock hx _ | noConnection _ hx | doom hx | keep hx =>
    exact h.within hx rfl rfl rfl rfl rfl (.refl _) rfl
  | scan hx hscan => exact h.scan hx hscan
  | @deleteInvalid i conn size held todo ptr hx =>
    exact h.moves (a := 0) (b := 0) hx rfl rfl (perm_deleted conn _ held (todo ++ ptr.toList) _) rfl rfl
  | @deleteDoomed i ptr held hx =>
    exact h.moves (a := 0) (b := 0) hx rfl rfl (perm_deleted ptr _ held [] _) rfl rfl
  | @noneLeft i size held hx =>
    refine h.moves (a := size) (b := 0) hx rfl rfl (.refl _) ?_ ?_
    · simp only [Pool.go, Caller.counted, Point.counted, Option.toList_none, List.length_nil]
      omega
    · exact (UInt32.sub_add_cancel _ _).trans (UInt32.add_zero _).symm
  | @handOut i size ptr held hx =>
    refine h.moves (a := size) (b := 0) hx rfl rfl ?_ ?_ ?_
    · simp [Pool.go, Caller.own, Point.ptrs]
    · simp only [Pool.go, Caller.counted, Point.counted, Option.toList_some, List.length_append,
        List.length_singleton]
      omega
    · exact (UInt32.sub_add_cancel _ _).trans (UInt32.add_zero _).symm
  | uncount hx =>
    refine h.moves (a := 1) (b := 0) hx rfl rfl (.refl _) rfl ?_
    exact (UInt32.sub_add_cancel _ _).trans (UInt32.add_zero _).symm
  | connect now hx =>
    refine h.go (a := 0) (b := 0) hx rfl (fun c => ?_) rfl rfl
    simp only [Pool.go, Pool.made, Caller.own, Point.ptrs, List.count_append, List.count_cons, List.count_nil,
      List.length_append, List.length_cons, List.length_nil, beq_iff_eq]
    repeat' split
    all_goals omega
  | count hx =>
    refine h.moves (a := 0) (b := 1) hx rfl rfl ?_ ?_ (UInt32.add_zero _)
    · simp [Pool.go, Caller.own, Point.ptrs]
    · simp only [Pool.go, Caller.counted, Point.counted, List.length_append, List.length_singleton]
      omega
  | release hx hmem =>
    refine h.within hx rfl rfl rfl rfl rfl (count_erase_append hmem []) ?_
    have hlen := List.length_erase_of_mem hmem
    have hpos := List.length_pos_of_mem hmem
    simp only [Caller.counted, Point.counted]
    omega
  | bump hx => exact h.within hx rfl rfl rfl rfl (List.length_modify ..) (.refl _) rfl
  | push hx =>
    refine h.moves (a := 0) (b := 0) hx rfl rfl ?_ ?_ rfl
    · simp only [Pool.go, Caller.own, Point.ptrs, List.append_nil, List.append_assoc, List.singleton_append]
      exact List.perm_middle.symm.append_left _
    · simp only [Caller.counted, Point.counted, List.length_append, List.length_singleton]
      omega
  | pass hi hj hne hmem => exact h.pass hi hj hne hmem
  | drop ptr =>
    refine ⟨fun c => ?_, h.total⟩
    rw [made_congr (List.length_modify ..)]
    exact h.once c

/-! ### Runs -/

/-- **The connection is in one place:** once in the idle list, or once with one caller, or deleted once. -/
def Pool.InOnePlace (s : Pool) (c : Nat) : Prop :=
  (s.m_coons.count c = 1 ∧ (∀ k ∈ s.callers, c ∉ k.own) ∧ c ∉ s.deleted) ∨
  (c ∉ s.m_coons ∧ (∃ (i : Nat) (k : Caller), s.callers[i]? = some k ∧ k.own.count c = 1 ∧
    ∀ (j : Nat) (k' : Caller), s.callers[j]? = some k' → j ≠ i → c ∉ k'.own) ∧ c ∉ s.deleted) ∨
  (c ∉ s.m_coons ∧ (∀ k ∈ s.callers, c ∉ k.own) ∧ s.deleted.count c = 1)

/-- No call is in progress. -/
def Pool.Quiet (s : Pool) : Prop := ∀ k ∈ s.callers, k.point = .out

/-- Whether no caller is on its way can be computed. -/
instance (s : Pool) : Decidable s.Quiet := inferInstanceAs (Decidable (∀ _ ∈ _, _))

/-- The pointers that were returned and not released. -/
def Pool.held (s : Pool) : List Nat := s.callers.flatMap Caller.held

/-- A connection that was made is in one place. -/
theorem Balanced.inOnePlace (h : Balanced s) {c : Nat} (hc : c < s.conns.length) : s.InOnePlace c := by
  have honce := h.once c
  rw [Pool.made, if_pos hc, Pool.places] at honce
  have hnot : ∀ {l : List Nat}, l.count c = 0 → c ∉ l := List.count_eq_zero.1
  have hnowhere : (s.callers.map fun k => k.own.count c).sum = 0 → ∀ k ∈ s.callers, c ∉ k.own :=
    fun hzero k hk => hnot (eq_zero_of_sum_map hzero k hk)
  -- the three numbers add up to one
  obtain hidle | hheld | hdel : s.m_coons.count c = 1 ∨ (s.callers.map fun k => k.own.count c).sum = 1 ∨
      s.deleted.count c = 1 := by omega
  · exact .inl ⟨hidle, hnowhere (by omega), hnot (by omega)⟩
  · obtain ⟨i, k, hi, hk, hothers⟩ := exists_one_of_sum_map hheld
    exact .inr (.inl ⟨hnot (by omega), ⟨i, k, hi, hk, fun j k' hj hne => hnot (hothers j k' hj hne)⟩,
      hnot (by omega)⟩)
  · exact .inr (.inr ⟨hnot (by omega), hnowhere (by omega), hdel⟩)

/-- With no caller on its way the count is that of the connections. -/
theorem Balanced.total_of_quiet (h : Balanced s) (hquiet : s.Quiet) :
    s.m_total = UInt32.ofNat (s.m_coons.length + s.held.length) := by
  have hmap : s.callers.map Caller.counted = s.callers.map fun k => k.held.length := by
    refine List.map_congr_left fun k hk => ?_
    rw [Caller.counted, hquiet k hk]
    rfl
  rw [h.total, hmap, Pool.held, List.length_flatMap]

/-- A new pool is balanced. -/
theorem balanced_init (n : Nat) : Balanced (system maxAliveTime maxRequest n).init := by
  have hzero : ∀ f : Caller → Nat, f ⟨[], .out⟩ = 0 →
      ((List.replicate n (⟨[], .out⟩ : Caller)).map f).sum = 0 := by
    intro f hf
    rw [List.map_replicate, hf, List.sum_replicate_nat, Nat.mul_zero]
  constructor
  · intro c
    dsimp only [system, Pool.places, Pool.made]
    rw [hzero _ rfl]
    rfl
  · dsimp only [system]
    rw [hzero _ rfl]
    rfl

/-- **Every connection is in one place, and `m_total` counts them.**  In every interleaving of `getConnection`
calls and releases, with connections dropped at any time: each connection that was made is in the
idle list, with one caller, or deleted, once; and when no call is in progress `m_total` is, as a
`uint32_t`, the number of idle and held connections. -/
theorem one_place (maxAliveTime maxRequest : UInt32) (n : Nat) (moves : List Move) (s : Pool)
    (h : (system maxAliveTime maxRequest n).Run anyStep moves s) :
    (∀ c < s.conns.length, s.InOnePlace c) ∧
      (s.Quiet → s.m_total = UInt32.ofNat (s.m_coons.length + s.held.length)) := by
  have hbalanced : Balanced s := h.invariant (I := fun _ s => Balanced s) (balanced_init n)
    fun _ _ _ _ hs _ hnext => hs.next hnext
  exact ⟨fun c hc => hbalanced.inOnePlace hc, hbalanced.total_of_quiet⟩

/-- Two callers: one makes a connection and gives it back, and the other one finds it dropped and makes
its own. -/
def dropped : List Move :=
  [.getConnection 0 9, .lock 0, .scan 0, .uncount 0, .connect 0 true 9, .count 0, .release 0 0, .bump 0,
    .check 0 20, .push 0, .drop 0, .getConnection 1 30, .lock 1, .scan 1, .scan 1, .delete 1, .uncount 1,
    .connect 1 true 30, .count 1]

/-- The statement at a run in which a connection is too old. -/
theorem one_place_dropped : ∃ s, (system 5 100 2).Run anyStep dropped s ∧ s.Quiet ∧
    s.conns.length = 2 ∧ s.deleted = [0] ∧ s.held = [1] ∧ s.InOnePlace 0 ∧ s.m_total = 1 := by
  have hexec : (system 5 100 2).exec (fun _ _ => true) (system 5 100 2).init dropped =
      some ⟨[], 1, none, [⟨0, 1, false, 9⟩, ⟨0, 0, true, 30⟩], [0], [⟨[], .out⟩, ⟨[1], .out⟩]⟩ := by decide
  have hrun : (system 5 100 2).Run anyStep dropped
      ⟨[], 1, none, [⟨0, 1, false, 9⟩, ⟨0, 0, true, 30⟩], [0], [⟨[], .out⟩, ⟨[1], .out⟩]⟩ :=
    System.run_of_exec (fun _ _ _ => trivial) hexec
  obtain ⟨hplaces, htotal⟩ := one_place 5 100 2 dropped _ hrun
  exact ⟨_, hrun, by decide, rfl, rfl, rfl, hplaces 0 (by decide), htotal (by decide)⟩

end ConnectionPool
end Http
end Wuchat
