/-
# The timeouts of a socket

`Socket::setRecvTimeout` and `setSendTimeout` of `socket.cpp` put their milliseconds into a `timeval`
and pass it to `setsockopt`.  The hooked `setsockopt` writes it to the context of the descriptor,
from where `getRecvTimeout`, `getSendTimeout` and `do_io` read it.

It does so only on a thread on which the hooks are off; with the hooks on, it hands the call to the
kernel and leaves the context alone.  So a timeout is kept exactly on a thread without hooks, or
when the context has it already (`timeouts_kept_iff`).
-/

import Wuchat.Hook.DoIo

namespace Wuchat
namespace Timeouts

open Foundation
open Fds (FdContext FdManager SO_RCVTIMEO SO_SNDTIMEO)
open DoIo (Call WaitTimer Move Entry entry)

/-- `timeval`. -/
structure Timeval where
  tv_sec : Int64
  tv_usec : Int64
  deriving DecidableEq, Repr

/-- `(int) n`, in a `long`. -/
def toInt (n : UInt64) : Int64 := n.toInt64.toInt32.toInt64

/-- `struct timeval tv{int(timeout / 1000), int(timeout % 1000 * 1000)}`. -/
def Timeval.ofMs (timeout : UInt64) : Timeval := ⟨toInt (timeout / 1000), toInt (timeout % 1000 * 1000)⟩

/-- `v->tv_sec * 1000 + v->tv_usec / 1000`, as the argument of `FdContext::setTimeout`. -/
def Timeval.ms (v : Timeval) : UInt64 := (v.tv_sec * 1000 + v.tv_usec / 1000).toUInt64

/-- The level of the timeout options. -/
def SOL_SOCKET : Int := 1

/-- The hooked `setsockopt` with a `timeval`; `setsockopt_f` is the answer of the kernel. -/
def setsockopt (hookEnable : Bool) (setsockopt_f : Int) (s : FdManager) (sockfd : Nat) (level optname : Int)
    (optval : Timeval) : Int × FdManager :=
  if hookEnable then (setsockopt_f, s)
  else if level = SOL_SOCKET then
    if optname = SO_RCVTIMEO ∨ optname = SO_SNDTIMEO then
      match s.slot sockfd with
      | some p => (setsockopt_f, s.modify p fun ctx => ctx.setTimeout optname optval.ms)
      | none => (setsockopt_f, s)
    else (setsockopt_f, s)
  else (setsockopt_f, s)

/-- The context `get(fd)` returns. -/
def context (s : FdManager) (fd : Nat) : Option FdContext := (s.slot fd).bind (s.heap[·]?)

namespace Socket

/-- `setOption(level, option, value)`. -/
def setOption (hookEnable : Bool) (setsockopt_f : Int) (s : FdManager) (m_sock : Nat) (level option : Int)
    (value : Timeval) : Bool × FdManager :=
  let (rt, s) := setsockopt hookEnable setsockopt_f s m_sock level option value
  (rt = 0, s)

/-- What `getSendTimeout` and `getRecvTimeout` do. -/
def getTimeout (type : Int) (s : FdManager) (m_sock : Nat) : UInt64 :=
  match context s m_sock with
  | some ctx => ctx.getTimeout type
  | none => -1

/-- What `setSendTimeout` and `setRecvTimeout` do. -/
def setTimeout (type : Int) (hookEnable : Bool) (setsockopt_f : Int) (s : FdManager) (m_sock : Nat)
    (timeout : UInt64) : FdManager :=
  (setOption hookEnable setsockopt_f s m_sock SOL_SOCKET type (.ofMs timeout)).2

/-- The send timeout of a socket. -/
def getSendTimeout := getTimeout SO_SNDTIMEO

/-- Its setter. -/
def setSendTimeout := setTimeout SO_SNDTIMEO

/-- The receive timeout of a socket. -/
def getRecvTimeout := getTimeout SO_RCVTIMEO

/-- Its setter. -/
def setRecvTimeout := setTimeout SO_RCVTIMEO

end Socket

/-- **Every wait has the timeout**: a call of `do_io` on the descriptor that goes into its loop arms the
timers of all its waits for that long. -/
def WaitsFor (timeout : UInt64) (s : FdManager) (fd : Nat) (timeoutSo : Int) : Prop :=
  ∀ found now moves c, entry true (context s fd) timeoutSo = .loop found →
    (DoIo.system (.loop found) now).Run anyStep moves c →
      ∀ w ∈ c.waits, ∃ timer, w = some timer ∧ timer.next = timer.armed + timeout

/-! ### The milliseconds come back -/

/-- A timeout of 63 bits is not negative. -/
theorem toInt_toInt64 {n : UInt64} (h : n.toNat < 2 ^ 63) : n.toInt64.toInt = n.toNat := by
  rw [← UInt64.ofNat_toNat (x := n), UInt64.toInt64_ofNat', Int64.toInt_ofNat_of_lt (by simpa using h)]
  simp

/-- A timeout of 31 bits fits an `int`. -/
theorem toInt_toInt {n : UInt64} (h : n.toNat < 2 ^ 31) : (toInt n).toInt = n.toNat := by
  rw [toInt, Int32.toInt_toInt64, Int64.toInt_toInt32, toInt_toInt64 (by omega)]
  exact Int.bmod_eq_of_le (by omega) (by omega)

/-- Milliseconds below `2^31` seconds go through a `timeval`. -/
theorem ms_ofMs {timeout : UInt64} (h : timeout.toNat < 2 ^ 31 * 1000) : (Timeval.ofMs timeout).ms = timeout := by
  have hsec : (toInt (timeout / 1000)).toInt = timeout.toNat / 1000 := by
    rw [toInt_toInt (by rw [UInt64.toNat_div]; exact Nat.div_lt_of_lt_mul (by simpa [Nat.mul_comm] using h)),
      UInt64.toNat_div]
    rfl
  have husec : (toInt (timeout % 1000 * 1000)).toInt = timeout.toNat % 1000 * 1000 := by
    have hnat : (timeout % 1000 * 1000).toNat = timeout.toNat % 1000 * 1000 := by
      rw [UInt64.toNat_mul, UInt64.toNat_mod]
      exact Nat.mod_eq_of_lt (by show timeout.toNat % 1000 * 1000 < 2 ^ 64; omega)
    rw [toInt_toInt (by omega), hnat]
    rfl
  have hsum : (toInt (timeout / 1000) * 1000 + toInt (timeout % 1000 * 1000) / 1000).toInt = timeout.toNat := by
    have hthousand : (1000 : Int64).toInt = 1000 := by decide
    rw [Int64.toInt_add, Int64.toInt_mul, Int64.toInt_div_of_ne_right _ _ (by decide), hsec, husec, hthousand,
      Int.mul_tdiv_cancel _ (by decide), Int.bmod_add_bmod]
    rw [Int.bmod_eq_of_le (by omega) (by omega)]
    omega
  rw [← toInt_toInt64 (by omega), Int64.toInt_inj] at hsum
  exact (congrArg Int64.toUInt64 hsum).trans (UInt64.toUInt64_toInt64 timeout)

/-! ### The waits of a call -/

variable {s t : Call} {timeout : UInt64}

/-- The waits so far have timers of that length, and the next ones will. -/
structure ArmedFor (timeout : UInt64) (s : Call) : Prop where
  waits : ∀ w ∈ s.waits, ∃ timer, w = some timer ∧ timer.next = timer.armed + timeout
  timeout_eq : s.timeout = timeout

/-- The waits are armed as before. -/
theorem ArmedFor.same (h : ArmedFor timeout s) (hwaits : t.waits = s.waits) (htimeout : t.timeout = s.timeout) :
    ArmedFor timeout t := by
  refine ⟨?_, htimeout.trans h.timeout_eq⟩
  rw [hwaits]
  exact h.waits

/-- A timer's stage changes nothing of its timeout. -/
theorem ArmedFor.setStage (h : ArmedFor timeout s) {w : Nat} {x : WaitTimer} (hx : s.timer w = some x)
    (stage : DoIo.TimerStage) : ArmedFor timeout (s.setStage w x stage) := by
  refine ⟨fun w' hw' => ?_, h.timeout_eq⟩
  rcases List.mem_or_eq_of_mem_set hw' with hold | rfl
  · exact h.waits w' hold
  · obtain ⟨timer, heq, hnext⟩ := h.waits (some x) (List.mem_of_getElem? (Option.join_eq_some_iff.mp hx))
    obtain rfl := Option.some.inj heq
    exact ⟨_, rfl, hnext⟩

/-- A `cancel()` changes the stage of a timer only. -/
theorem ArmedFor.cancelTimer (h : ArmedFor timeout s) {place : DoIo.Place} (hcancel : s.cancelTimer place = some t) :
    ArmedFor timeout t := by
  rcases DoIo.cancelTimer_cases hcancel with ⟨rfl, -⟩ | ⟨x, hx, -, rfl⟩
  · exact h.same rfl rfl
  · exact (h.setStage hx .cancelled).same rfl rfl

/-- Nor does its callback. -/
theorem ArmedFor.callback (h : ArmedFor timeout s) {w : Nat} {x : WaitTimer} (hx : s.timer w = some x) :
    ArmedFor timeout (s.callback w x) := by
  unfold Call.callback
  split
  · exact h.setStage hx .done
  · split
    · exact h.setStage hx .done
    · exact (h.setStage hx .flagged).same rfl rfl

/-- **Every step keeps the length of the waits.** -/
theorem ArmedFor.next (h : ArmedFor timeout s) (hforever : timeout ≠ -1) {move : Move}
    (hn : s.next move = some t) : ArmedFor timeout t := by
  cases Call.step_of_next hn with
  | arm =>
    refine ⟨fun w hw => ?_, h.timeout_eq⟩
    rcases List.mem_append.mp hw with hold | hnew
    · exact h.waits w hold
    · rw [List.mem_singleton.mp hnew, h.timeout_eq, if_neg hforever]
      exact ⟨_, rfl, rfl⟩
  | resumed _ hcancel | failed _ hcancel => exact h.cancelTimer hcancel
  | collect hx => exact h.setStage hx .collected
  | callback hx => exact h.callback hx
  | triggered hx => exact (h.setStage hx .done).same rfl rfl
  | done _ hx => exact h.setStage hx .done
  | _ => exact h.same rfl rfl

/-- In every run the waits are armed for the timeout. -/
theorem armedFor_run (hforever : timeout ≠ -1) {now : UInt64} {moves : List Move}
    (hrun : (DoIo.system (.loop timeout) now).Run anyStep moves s) : ArmedFor timeout s :=
  hrun.invariant (I := fun _ s => ArmedFor timeout s) ⟨fun _ hw => absurd hw List.not_mem_nil, rfl⟩
    fun _ _ _ _ h _ hn => h.next hforever hn

/-! ### What is kept -/

variable {m : FdManager} {fd p : Nat} {ctx : FdContext} {type : Int}

/-- A call that loops does so with the context's timeout. -/
theorem loop_timeout {found : UInt64} (h : entry true (some ctx) type = .loop found) :
    found = ctx.getTimeout type := by
  simp only [entry, Bool.not_true, Bool.false_eq_true, if_false] at h
  split at h
  · cases h
  · split at h
    · cases h
    · exact (Entry.loop.inj h).symm

/-- A context that has the timeout gives it to the waits. -/
theorem waitsFor_of_context (hcontext : context m fd = some ctx) (htimeout : ctx.getTimeout type = timeout)
    (hforever : timeout ≠ -1) : WaitsFor timeout m fd type := by
  intro found now moves c hentry hrun
  rw [hcontext] at hentry
  obtain rfl := (loop_timeout hentry).trans htimeout
  exact (armedFor_run hforever hrun).waits

/-- The timeout that was set. -/
theorem getTimeout_setTimeout (htype : type = SO_RCVTIMEO ∨ type = SO_SNDTIMEO) (v : UInt64) :
    (ctx.setTimeout type v).getTimeout type = v := by
  rcases htype with rfl | rfl <;> rfl

/-- The context after `setRecvTimeout` or `setSendTimeout`. -/
theorem context_setTimeout (htype : type = SO_RCVTIMEO ∨ type = SO_SNDTIMEO) (hslot : m.slot fd = some p)
    (hctx : m.heap[p]? = some ctx) (hlt : timeout.toNat < 2 ^ 31 * 1000) (hookEnable : Bool) (answer : Int) :
    context (Socket.setTimeout type hookEnable answer m fd timeout) fd =
      some (if hookEnable then ctx else ctx.setTimeout type timeout) := by
  cases hookEnable with
  | true =>
    show (m.slot fd).bind (m.heap[·]?) = _
    rw [hslot]
    exact hctx
  | false =>
    have hset : Socket.setTimeout type false answer m fd timeout =
        m.modify p fun ctx => ctx.setTimeout type timeout := by
      simp only [Socket.setTimeout, Socket.setOption, setsockopt, Bool.false_eq_true, if_false, if_true, if_pos htype,
        hslot, ms_ofMs hlt]
    rw [hset]
    show (m.slot fd).bind ((m.heap.modify p _)[·]?) = _
    rw [hslot, Option.bind_some, List.getElem?_modify_eq, hctx]
    rfl

/-- One of the two timeouts. -/
theorem timeout_kept_iff (htype : type = SO_RCVTIMEO ∨ type = SO_SNDTIMEO) (hslot : m.slot fd = some p)
    (hctx : m.heap[p]? = some ctx) (hlt : timeout.toNat < 2 ^ 31 * 1000) (hookEnable : Bool) (answer : Int) :
    (Socket.getTimeout type (Socket.setTimeout type hookEnable answer m fd timeout) fd = timeout ∧
        WaitsFor timeout (Socket.setTimeout type hookEnable answer m fd timeout) fd type) ↔
      hookEnable = false ∨ ctx.getTimeout type = timeout := by
  have hcontext := context_setTimeout htype hslot hctx hlt hookEnable answer
  have hforever : timeout ≠ -1 := by
    rintro rfl
    exact absurd hlt (by decide)
  have hget : Socket.getTimeout type (Socket.setTimeout type hookEnable answer m fd timeout) fd =
      (if hookEnable then ctx else ctx.setTimeout type timeout).getTimeout type := by
    rw [Socket.getTimeout, hcontext]
  have hboth : (if hookEnable then ctx else ctx.setTimeout type timeout).getTimeout type = timeout ↔
      hookEnable = false ∨ ctx.getTimeout type = timeout := by
    cases hookEnable with
    | true => simp
    | false => simp [getTimeout_setTimeout htype]
  rw [hget]
  exact (and_iff_left_of_imp fun h => waitsFor_of_context hcontext h hforever).trans hboth

/-- **A timeout is kept exactly on a thread without hooks**, or when the context has it already: then the
getter returns it, and every wait of `do_io` for that direction is armed with it. -/
theorem timeouts_kept_iff (m : FdManager) (m_sock p : Nat) (ctx : FdContext) (hslot : m.slot m_sock = some p)
    (hctx : m.heap[p]? = some ctx) (timeout : UInt64) (hlt : timeout.toNat < 2 ^ 31 * 1000) (hookEnable : Bool)
    (answer : Int) :
    ((Socket.getRecvTimeout (Socket.setRecvTimeout hookEnable answer m m_sock timeout) m_sock = timeout ∧
        WaitsFor timeout (Socket.setRecvTimeout hookEnable answer m m_sock timeout) m_sock SO_RCVTIMEO) ↔
      hookEnable = false ∨ ctx.recvTimeout = timeout) ∧
    ((Socket.getSendTimeout (Socket.setSendTimeout hookEnable answer m m_sock timeout) m_sock = timeout ∧
        WaitsFor timeout (Socket.setSendTimeout hookEnable answer m m_sock timeout) m_sock SO_SNDTIMEO) ↔
      hookEnable = false ∨ ctx.sendTimeout = timeout) :=
  ⟨timeout_kept_iff (.inl rfl) hslot hctx hlt hookEnable answer,
    timeout_kept_iff (.inr rfl) hslot hctx hlt hookEnable answer⟩

/-- A manager with the context of the socket 3. -/
def oneSocket : FdManager := (FdManager.new.get 0 3 true).create 0 3 (some true)

/-- The statement at one socket and five seconds. -/
theorem timeouts_kept_iff_oneSocket :
    (Socket.getRecvTimeout (Socket.setRecvTimeout false 0 oneSocket 3 5000) 3 = 5000 ∧
        WaitsFor 5000 (Socket.setRecvTimeout false 0 oneSocket 3 5000) 3 SO_RCVTIMEO) ∧
      oneSocket.slot 3 = some 0 := by
  have hslot : oneSocket.slot 3 = some 0 := by decide
  have hctx : oneSocket.heap[0]? = some (FdContext.new 3 (some true)) := by decide
  exact ⟨(timeouts_kept_iff oneSocket 3 0 _ hslot hctx 5000 (by decide) false 0).1.mpr (.inl rfl), hslot⟩

/-- **A timeout set on a hooked thread is lost**: five seconds for a new socket, and the getter still says that
there is none. -/
theorem timeout_lost : Fds.system.Run anyStep [.get 0 3 true, .create 0 (some true)] oneSocket ∧
    oneSocket.slot 3 = some 0 ∧
    Socket.getRecvTimeout (Socket.setRecvTimeout true 0 oneSocket 3 5000) 3 = -1 ∧
    Socket.getSendTimeout (Socket.setSendTimeout true 0 oneSocket 3 5000) 3 = -1 ∧
    ¬ WaitsFor 5000 (Socket.setRecvTimeout true 0 oneSocket 3 5000) 3 SO_RCVTIMEO := by
  refine ⟨(System.Run.start.step trivial rfl).step trivial rfl, by decide, by decide, by decide, fun hwaits => ?_⟩
  -- the call waits without a timer
  have hrun : (DoIo.system (.loop (-1)) 0).Run anyStep [.sysCall .EAGAIN, .arm]
      { Call.new (.loop (-1)) 0 with place := .registering, waits := [none] } :=
    (System.Run.start.step trivial rfl).step trivial rfl
  obtain ⟨timer, htimer, -⟩ := hwaits (-1) 0 _ _ (by decide) hrun none List.mem_cons_self
  cases htimer

end Timeouts
end Wuchat
