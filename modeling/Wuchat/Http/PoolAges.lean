/-
# Ages in the pool of connections

`HttpConnectionPool::getConnection` and `ReleasePtr` compare `m_createTime + m_maxAliveTime` with the
clock.  No constructor sets `m_createTime`, so it is `0` in every connection (`Unstamped`): the tests
compare the clock with `m_maxAliveTime` alone, `getConnection` the wrong way round.

The age of a connection is the time since it was made, `born` here.  A step takes ages as it should
(`AgesRight`) exactly when the clock and the connection agree on the test (`ClockAgrees`), and so does
a run.
-/

import Wuchat.Http.ConnectionPool

namespace Wuchat
namespace Http
namespace ConnectionPool

open Foundation

/-- The connection was made less than `m_maxAliveTime` ago. -/
def HttpConnection.young (maxAliveTime : UInt32) (now : UInt64) (c : HttpConnection) : Prop :=
  now.toNat < c.born.toNat + maxAliveTime.toNat

/-- `getConnection` of the caller takes an idle connection to return it. -/
def Pool.handsOut (s : Pool) (i ptr : Nat) : Prop :=
  ∃ held todo size, s.callers[i]? = some ⟨held, .deleting todo size (some ptr)⟩

/-- `getConnection` of the caller takes an idle connection to delete it. -/
def Pool.discards (s : Pool) (i ptr : Nat) : Prop :=
  ∃ held now invalid_conns, s.callers[i]? = some ⟨held, .scanning now (invalid_conns ++ [ptr])⟩

/-- `ReleasePtr` of the caller is about to put a connection back. -/
def Pool.returns (s : Pool) (i ptr : Nat) : Prop := ∃ held, s.callers[i]? = some ⟨held, .pushing ptr⟩

/-- **The step takes ages as it should**: no connection is handed out that is not young, no young one
discarded that is connected, and one is put back exactly when it is connected, young, and served fewer
than `m_maxRequest` requests. -/
def AgesRight (maxAliveTime maxRequest : UInt32) (s : Pool) : Move → Prop
  | .scan i => ∀ held now invalid_conns conn rest c t, s.callers[i]? = some ⟨held, .scanning now invalid_conns⟩ →
      s.m_coons = conn :: rest → s.conns[conn]? = some c → s.next maxAliveTime maxRequest (.scan i) = some t →
      (t.handsOut i conn → c.young maxAliveTime now) ∧
        (t.discards i conn → c.connected = true → ¬ c.young maxAliveTime now)
  | .check i now => ∀ held ptr c t, s.callers[i]? = some ⟨held, .checking ptr⟩ → s.conns[ptr]? = some c →
      s.next maxAliveTime maxRequest (.check i now) = some t →
      (t.returns i ptr ↔ c.connected = true ∧ c.young maxAliveTime now ∧ c.m_request.toNat < maxRequest.toNat)
  | _ => True

/-- **The clock and the connection agree**: in `getConnection`, a connected one that is met is young and the
clock has come to `m_maxAliveTime`; in `ReleasePtr`, one that is connected and may serve more requests is
young and the clock has passed `m_maxAliveTime`, or is not and it has not. -/
def ClockAgrees (maxAliveTime maxRequest : UInt32) (s : Pool) : Move → Prop
  | .scan i => ∀ held now invalid_conns conn rest c, s.callers[i]? = some ⟨held, .scanning now invalid_conns⟩ →
      s.m_coons = conn :: rest → s.conns[conn]? = some c → c.connected = true →
      c.young maxAliveTime now ∧ maxAliveTime.toNat ≤ now.toNat
  | .check i now => ∀ held ptr c, s.callers[i]? = some ⟨held, .checking ptr⟩ → s.conns[ptr]? = some c →
      c.connected = true → c.m_request.toNat < maxRequest.toNat →
      (c.young maxAliveTime now ↔ maxAliveTime.toNat < now.toNat)
  | _ => True

/-! ### No connection is stamped -/

/-- `m_createTime` is never set. -/
def Unstamped (s : Pool) : Prop := ∀ c ∈ s.conns, c.m_createTime = 0

variable {maxAliveTime maxRequest : UInt32} {s t : Pool} {i : Nat}

/-- The connections are as before. -/
theorem Unstamped.same (h : Unstamped s) (hconns : t.conns = s.conns) : Unstamped t := by
  rw [Unstamped, hconns]
  exact h

/-- A change that leaves the creation time keeps it at 0. -/
theorem Unstamped.modify (h : Unstamped s) {ptr : Nat} {f : HttpConnection → HttpConnection}
    (hconns : t.conns = s.conns.modify ptr f) (hf : ∀ c, (f c).m_createTime = c.m_createTime) : Unstamped t := by
  intro c hc
  rw [hconns] at hc
  obtain ⟨k, hk⟩ := List.mem_iff_getElem?.mp hc
  rw [List.getElem?_modify] at hk
  obtain ⟨c', hc', rfl⟩ := Option.map_eq_some_iff.mp hk
  have hzero := h c' (List.mem_of_getElem? hc')
  split
  · rw [hf, hzero]
  · exact hzero

/-- The search for a connection leaves it. -/
theorem unstamped_scan (h : Unstamped s) {held invalid_conns : List Nat} {now : UInt64}
    (hscan : s.scan maxAliveTime i held now invalid_conns = some t) : Unstamped t := by
  rw [Pool.scan] at hscan
  split at hscan
  · obtain rfl := Option.some.inj hscan
    exact h.same rfl
  · split at hscan
    · cases hscan
    · split at hscan
      · obtain rfl := Option.some.inj hscan
        exact h.same rfl
      · obtain rfl := Option.some.inj hscan
        exact h.same rfl

/-- So does every move. -/
theorem unstamped_next (h : Unstamped s) {m : Move} (hnext : s.next maxAliveTime maxRequest m = some t) :
    Unstamped t := by
  cases Pool.step_of_next hnext with
  | scan _ hscan => exact unstamped_scan h hscan
  | connect now =>
    intro c hc
    rcases List.mem_append.mp hc with hold | hnew
    · exact h c hold
    · rw [List.mem_singleton.mp hnew]
  | bump | drop => exact h.modify rfl fun _ => rfl
  | _ => exact h.same rfl

/-- So does every run. -/
theorem unstamped_run {ok : Pool → Move → Prop} {n : Nat} {moves : List Move}
    (h : (system maxAliveTime maxRequest n).Run ok moves s) : Unstamped s :=
  h.invariant (I := fun _ s => Unstamped s) (fun _ hc => by cases hc)
    fun _ _ _ _ h _ hnext => unstamped_next h hnext

/-! ### What the tests come to -/

/-- A caller's place behind its move. -/
theorem callers_go {x : Caller} (hx : s.callers[i]? = some x) (held : List Nat) (point : Point) :
    (s.go i held point).callers[i]? = some ⟨held, point⟩ := by
  rw [Pool.go, List.getElem?_set_self (List.getElem?_eq_some_iff.mp hx).1]

/-- Which clocks make a connection created at 0 too old. -/
theorem due_zero (now : UInt64) (maxAliveTime : UInt32) :
    (now < 0 + maxAliveTime.toUInt64 ↔ now.toNat < maxAliveTime.toNat) ∧
      (now ≤ 0 + maxAliveTime.toUInt64 ↔ now.toNat ≤ maxAliveTime.toNat) := by
  rw [UInt64.zero_add, UInt64.lt_iff_toNat_lt, UInt64.le_iff_toNat_le, UInt32.toNat_toUInt64]
  exact ⟨.rfl, .rfl⟩

/-- An iteration of the loop hands the connection out, or discards it. -/
theorem next_scan (maxRequest : UInt32) (h : Unstamped s) {held invalid_conns rest : List Nat} {now : UInt64}
    {conn : Nat} {c : HttpConnection} (hx : s.callers[i]? = some ⟨held, .scanning now invalid_conns⟩)
    (hcoons : s.m_coons = conn :: rest) (hc : s.conns[conn]? = some c) :
    ∃ t, s.next maxAliveTime maxRequest (.scan i) = some t ∧
      (t.handsOut i conn ↔ c.connected = true ∧ maxAliveTime.toNat ≤ now.toNat) ∧
      (t.discards i conn ↔ c.connected = false ∨ now.toNat < maxAliveTime.toNat) := by
  have hzero := h c (List.mem_of_getElem? hc)
  simp only [Pool.next, hx, Pool.scan, hcoons, hc, hzero, (due_zero now maxAliveTime).1]
  split
  · rename_i hout
    refine ⟨_, rfl, iff_of_false ?_ ?_, iff_of_true ⟨held, now, invalid_conns, callers_go hx _ _⟩ hout⟩
    · rintro ⟨held', todo, size, hcallers⟩
      cases (callers_go hx _ _).symm.trans hcallers
    · rintro ⟨hconnected, hle⟩
      rcases hout with hfalse | hlt
      · rw [hconnected] at hfalse
        cases hfalse
      · omega
  · rename_i hin
    obtain ⟨hconnected, hle⟩ := not_or.mp hin
    refine ⟨_, rfl, iff_of_true ⟨held, _, _, callers_go hx _ _⟩ ?_, iff_of_false ?_ hin⟩
    · exact ⟨by simpa using hconnected, by omega⟩
    · rintro ⟨held', now', invalid', hcallers⟩
      cases (callers_go hx _ _).symm.trans hcallers

/-- The test of `ReleasePtr`. -/
theorem next_check (maxRequest : UInt32) (h : Unstamped s) {held : List Nat} {ptr : Nat} {c : HttpConnection}
    (now : UInt64) (hx : s.callers[i]? = some ⟨held, .checking ptr⟩) (hc : s.conns[ptr]? = some c) :
    ∃ t, s.next maxAliveTime maxRequest (.check i now) = some t ∧
      (t.returns i ptr ↔
        c.connected = true ∧ maxAliveTime.toNat < now.toNat ∧ c.m_request.toNat < maxRequest.toNat) := by
  have hzero := h c (List.mem_of_getElem? hc)
  have hserved : maxRequest.toUInt64 ≤ c.m_request ↔ maxRequest.toNat ≤ c.m_request.toNat := by
    rw [UInt64.le_iff_toNat_le, UInt32.toNat_toUInt64]
  simp only [Pool.next, hx, hc, hzero, (due_zero now maxAliveTime).2, hserved]
  split
  · rename_i hout
    refine ⟨_, rfl, iff_of_false ?_ ?_⟩
    · rintro ⟨held', hcallers⟩
      cases (callers_go hx _ _).symm.trans hcallers
    · rintro ⟨hconnected, hlt, hmore⟩
      rcases hout with hfalse | hle
      · rw [hconnected] at hfalse
        cases hfalse
      · omega
  · rename_i hin
    obtain ⟨hconnected, hle⟩ := not_or.mp hin
    exact ⟨_, rfl, iff_of_true ⟨held, callers_go hx _ _⟩ ⟨by simpa using hconnected, by omega, by omega⟩⟩

/-- **A step takes ages as it should exactly when the clock agrees.** -/
theorem agesRight_step (h : Unstamped s) (m : Move) :
    AgesRight maxAliveTime maxRequest s m ↔ ClockAgrees maxAliveTime maxRequest s m := by
  cases m with
  | scan i =>
    constructor
    · intro hright held now invalid_conns conn rest c hx hcoons hc hconnected
      obtain ⟨t, hnext, hhands, hdiscards⟩ := next_scan maxRequest h hx hcoons hc
      obtain ⟨hyoung, hold⟩ := hright held now invalid_conns conn rest c t hx hcoons hc hnext
      -- one that is discarded is young, for the clock has not come to `m_maxAliveTime`
      have hle : maxAliveTime.toNat ≤ now.toNat := by
        refine Nat.le_of_not_lt fun hlt => hold (hdiscards.mpr (.inr hlt)) hconnected ?_
        exact Nat.lt_of_lt_of_le hlt (Nat.le_add_left _ _)
      exact ⟨hyoung (hhands.mpr ⟨hconnected, hle⟩), hle⟩
    · intro hagrees held now invalid_conns conn rest c t hx hcoons hc hnext
      obtain ⟨t', hnext', hhands, hdiscards⟩ := next_scan maxRequest h hx hcoons hc
      obtain rfl := Option.some.inj (hnext.symm.trans hnext')
      have hclock := hagrees held now invalid_conns conn rest c hx hcoons hc
      constructor
      · intro hout
        exact (hclock (hhands.mp hout).1).1
      · intro hout hconnected
        have hle := (hclock hconnected).2
        rcases hdiscards.mp hout with hfalse | hlt
        · rw [hconnected] at hfalse
          cases hfalse
        · omega
  | check i now =>
    constructor
    · intro hright held ptr c hx hc hconnected hserved
      obtain ⟨t, hnext, hreturns⟩ := next_check maxRequest h now hx hc
      have hiff := hreturns.symm.trans (hright held ptr c t hx hc hnext)
      simp only [hconnected, hserved, true_and, and_true] at hiff
      exact hiff.symm
    · intro hagrees held ptr c t hx hc hnext
      obtain ⟨t', hnext', hreturns⟩ := next_check maxRequest h now hx hc
      obtain rfl := Option.some.inj (hnext.symm.trans hnext')
      rw [hreturns]
      refine and_congr_right fun hconnected => ?_
      constructor
      · rintro ⟨hlt, hserved⟩
        exact ⟨(hagrees held ptr c hx hc hconnected hserved).mpr hlt, hserved⟩
      · rintro ⟨hyoung, hserved⟩
        exact ⟨(hagrees held ptr c hx hc hconnected hserved).mp hyoung, hserved⟩
  | _ => exact .rfl

/-- **A run takes ages as it should exactly when the clock agrees at every step.** -/
theorem agesRight_iff (maxAliveTime maxRequest : UInt32) (n : Nat) (moves : List Move) (s : Pool) :
    (system maxAliveTime maxRequest n).Run (AgesRight maxAliveTime maxRequest) moves s ↔
      (system maxAliveTime maxRequest n).Run (ClockAgrees maxAliveTime maxRequest) moves s := by
  constructor
  · exact System.Run.mono_of_run fun _ _ m hrun => (agesRight_step (unstamped_run hrun) m).mp
  · exact System.Run.mono_of_run fun _ _ m hrun => (agesRight_step (unstamped_run hrun) m).mpr

/-- **A connection of 95 seconds is handed out** by a pool that keeps them for one second: it was made at
5000, put back at 5500, and is asked for at 100000. -/
theorem old_connection_handed_out : ∃ s t c,
    (system 1000 10 1).Run anyStep
      [.getConnection 0 5000, .lock 0, .scan 0, .uncount 0, .connect 0 true 5000, .count 0, .release 0 0,
        .bump 0, .check 0 5500, .push 0, .getConnection 0 100000, .lock 0] s ∧
    s.callers[0]? = some ⟨[], .scanning 100000 []⟩ ∧ s.m_coons = [0] ∧ s.conns[0]? = some c ∧
      c.connected = true ∧ c.born = 5000 ∧ s.next 1000 10 (.scan 0) = some t ∧ t.handsOut 0 0 ∧
      ¬ AgesRight 1000 10 s (.scan 0) := by
  refine ⟨⟨[0], 1, some 0, [⟨0, 1, true, 5000⟩], [], [⟨[], .scanning 100000 []⟩]⟩,
    ⟨[], 1, none, [⟨0, 1, true, 5000⟩], [], [⟨[], .deleting [] 0 (some 0)⟩]⟩, ⟨0, 1, true, 5000⟩, ?_, rfl, rfl,
    rfl, rfl, rfl, by decide, ⟨_, _, _, rfl⟩, ?_⟩
  · exact System.run_of_exec (g := fun _ _ => true) (fun _ _ _ => trivial) (by decide)
  · intro hright
    have hyoung := (hright [] 100000 [] 0 [] ⟨0, 1, true, 5000⟩
      ⟨[], 1, none, [⟨0, 1, true, 5000⟩], [], [⟨[], .deleting [] 0 (some 0)⟩]⟩ rfl rfl rfl (by decide)).1
      ⟨_, _, _, rfl⟩
    exact absurd hyoung (by unfold HttpConnection.young; decide)

end ConnectionPool
end Http
end Wuchat
