/-
# How long `idle` waits

`IOManager::idle` asks the timer manager how long it is to the next timer and passes that to
`epoll_wait`, at most `MAX_TIMEOUT`; when a signal interrupts the wait it computes the
timeout again, from the one before.  The delay has 64 bits and goes through an `int` on its way
to the minimum, so a delay from `2^31` milliseconds on may come out negative, and then
`epoll_wait` blocks until an event comes (`timeouts_iff`).
-/

import Mathlib.Algebra.Group.Int.Defs
import Mathlib.Algebra.Group.Nat.Defs
import Wuchat.Timer.Manager

namespace Wuchat
namespace Io

open Timers

/-- How `epoll_wait` ended: with `EINTR`, or with a number of events or another error. -/
inductive Woke
  | eintr
  | returned (rt : Int32)
  deriving DecidableEq, Repr

/-- `(int) n`. -/
def toInt (n : UInt64) : Int32 := n.toInt64.toInt32

/-- An `int` in a `uint64_t`. -/
def ofInt (n : Int32) : UInt64 := n.toInt64.toUInt64

/-- The longest wait, in milliseconds. -/
def MAX_TIMEOUT : Int32 := 3000

/-- `next_timeout` after one turn of the loop around `epoll_wait`. -/
def turnTimeout (next_timeout : UInt64) : UInt64 :=
  if next_timeout ≠ -1 then ofInt (min (toInt next_timeout) MAX_TIMEOUT) else ofInt MAX_TIMEOUT

/-- The loop around `epoll_wait`, for what the calls end with: the timeouts it passes. -/
def waitLoop : UInt64 → List Woke → List Int32
  | _, [] => []
  | next_timeout, woke :: rest =>
    let next_timeout := turnTimeout next_timeout
    toInt next_timeout :: match woke with
      | .eintr => waitLoop next_timeout rest
      | .returned _ => []

/-- One turn of the wait, and another when it was interrupted. -/
theorem waitLoop_cons (d : UInt64) (woke : Woke) (wokes : List Woke) : waitLoop d (woke :: wokes) =
    toInt (turnTimeout d) :: match woke with
      | .eintr => waitLoop (turnTimeout d) wokes
      | .returned _ => [] := rfl

variable {γ : Type}

/-- `stopping(timeout)`, for what the rest of the test says. -/
def stopping (quiet : Bool) (now : UInt64) (m : Timers.Manager γ) : Bool × UInt64 × Timers.Manager γ :=
  let r := m.getNextTimer now
  (r.1 == -1 && quiet, r.1, r.2)

/-- One round of `idle` up to the end of the wait; none when it leaves. -/
def idleRound (quiet : Bool) (now : UInt64) (m : Timers.Manager γ) (wokes : List Woke) :
    Option (List Int32 × Timers.Manager γ) :=
  let r := stopping quiet now m
  if r.1 then none else some (waitLoop r.2.1 wokes, r.2.2)

/-- The timeouts for a delay of `d`: the delay, at most `MAX_TIMEOUT`. -/
def TimeoutsRight (d : UInt64) (timeouts : List Int32) : Prop :=
  ∀ t ∈ timeouts, 0 ≤ t.toInt ∧ t.toInt ≤ 3000 ∧ t.toInt = min d.toNat 3000

/-! ### Through an `int` -/

/-- A timeout converted there and back. -/
theorem toInt_ofInt (n : Int32) : toInt (ofInt n) = n := by simp [toInt, ofInt]

/-- The low half of the number, with a sign. -/
theorem toInt_toInt (n : UInt64) : (toInt n).toInt = (n.toNat : Int).bmod (2 ^ 32) := by
  have h64 : n.toInt64.toInt = (n.toNat : Int).bmod (2 ^ 64) := BitVec.toInt_eq_toNat_bmod n.toBitVec
  rw [toInt, Int64.toInt_toInt32, h64]
  exact Int.bmod_bmod_of_dvd (by decide)

/-- The smaller of two timeouts. -/
theorem toInt_min (a b : Int32) : (min a b).toInt = min a.toInt b.toInt := by
  show (if a ≤ b then a else b).toInt = _
  by_cases h : a ≤ b
  · rw [if_pos h, Int.min_eq_left (Int32.le_iff_toInt_le.mp h)]
  · have hle : b.toInt ≤ a.toInt := by
      rw [Int32.le_iff_toInt_le] at h
      omega
    rw [if_neg h, Int.min_eq_right hle]

/-- What the first call gets. -/
theorem toInt_turnTimeout (d : UInt64) :
    (toInt (turnTimeout d)).toInt = if d = -1 then 3000 else min ((d.toNat : Int).bmod (2 ^ 32)) 3000 := by
  rw [turnTimeout]
  by_cases hd : d = -1
  · rw [if_neg (not_not_intro hd), if_pos hd, toInt_ofInt]
    rfl
  · rw [if_pos hd, if_neg hd, toInt_ofInt, toInt_min, toInt_toInt]
    rfl

/-- What a turn leaves went through an `int`. -/
theorem turnTimeout_eq (d : UInt64) : turnTimeout d = ofInt (toInt (turnTimeout d)) := by
  rw [turnTimeout]
  split <;> rw [toInt_ofInt]

/-- **A timeout in the range is not changed by another turn.** -/
theorem turnTimeout_ofInt {t : Int32} (h₀ : 0 ≤ t.toInt) (h₁ : t.toInt ≤ 3000) : turnTimeout (ofInt t) = ofInt t := by
  have hne : ofInt t ≠ -1 := by
    intro hc
    have ht : t = -1 := by
      rw [← toInt_ofInt t, hc]
      decide
    rw [ht] at h₀
    exact absurd h₀ (by decide)
  have hmin : min t MAX_TIMEOUT = t := by
    rw [← Int32.toInt_inj, toInt_min]
    exact Int.min_eq_left h₁
  rw [turnTimeout, if_pos hne, toInt_ofInt, hmin]

/-- **Every call gets the timeout of the first**, if that is in the range. -/
theorem mem_waitLoop {t : Int32} (h₀ : 0 ≤ t.toInt) (h₁ : t.toInt ≤ 3000) (wokes : List Woke) :
    ∀ {d : UInt64}, turnTimeout d = ofInt t → ∀ x ∈ waitLoop d wokes, x = t := by
  induction wokes with
  | nil => exact fun _ x hx => by cases hx
  | cons woke wokes ih =>
    intro d hd x hx
    rw [waitLoop_cons, hd, toInt_ofInt] at hx
    rcases List.mem_cons.mp hx with rfl | hx
    · rfl
    · cases woke with
      | eintr => exact ih (turnTimeout_ofInt h₀ h₁) x hx
      | returned rt => cases hx

/-- **The timeouts are right exactly for a delay whose low half, as an `int`, is the delay or at least the limit**,
or when there is no timer. -/
theorem timeouts_iff (d : UInt64) : (∀ wokes, TimeoutsRight d (waitLoop d wokes)) ↔
    d.toNat < 2 ^ 31 ∨ (3000 ≤ d.toNat % 2 ^ 32 ∧ d.toNat % 2 ^ 32 < 2 ^ 31) ∨ d = -1 := by
  have hfirst := toInt_turnTimeout d
  have hbmod : (d.toNat : Int).bmod (2 ^ 32) =
      if d.toNat % 2 ^ 32 < 2 ^ 31 then ((d.toNat % 2 ^ 32 : Nat) : Int) else (d.toNat % 2 ^ 32 : Nat) - 2 ^ 32 := by
    rw [Int.bmod_def]
    split <;> split <;> omega
  have htop : (-1 : UInt64).toNat = 2 ^ 64 - 1 := by decide
  constructor
  · intro h
    obtain ⟨h₀, -, heq⟩ := h [.returned 0] (toInt (turnTimeout d)) List.mem_cons_self
    by_cases hd : d = -1
    · exact .inr (.inr hd)
    · rw [hfirst, if_neg hd, hbmod] at heq h₀
      split at heq <;> omega
  · intro h wokes x hx
    have hright : 0 ≤ (toInt (turnTimeout d)).toInt ∧ (toInt (turnTimeout d)).toInt ≤ 3000 ∧
        (toInt (turnTimeout d)).toInt = min d.toNat 3000 := by
      rw [hfirst]
      by_cases hd : d = -1
      · rw [if_pos hd, hd, htop]
        decide
      · rw [if_neg hd, hbmod]
        have hcases : d.toNat < 2 ^ 31 ∨ (3000 ≤ d.toNat % 2 ^ 32 ∧ d.toNat % 2 ^ 32 < 2 ^ 31) :=
          h.imp_right fun hor => hor.resolve_right hd
        split <;> omega
    obtain rfl := mem_waitLoop hright.1 hright.2.1 wokes (turnTimeout_eq d) x hx
    exact hright

/-- **A timer in 25 days**: `epoll_wait` gets a negative timeout. -/
theorem timer_beyond_int : ∃ m m' : Timers.Manager Unit,
    Timers.Manager.new.addTimer 1 2147483648 (some (.fn ())) false 0 = some m ∧
      idleRound false 0 m [.returned 0] = some ([-2147483648], m') ∧
      ¬ TimeoutsRight (m.getNextTimer 0).1 (waitLoop (m.getNextTimer 0).1 [.returned 0]) := by
  refine ⟨_, _, rfl, rfl, fun h => ?_⟩
  exact absurd (h (-2147483648) List.mem_cons_self).1 (by decide)

end Io
end Wuchat
