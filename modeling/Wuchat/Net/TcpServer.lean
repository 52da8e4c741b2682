/-
# The accept loops of a server

`tcp_server.cpp`: `TCPServer::start` schedules one fiber for each listening socket, which accepts
connections and hands each of them to the worker until `m_stop` is set.  `stop` sets
`m_stop` and schedules a task on the accept scheduler that closes the listening sockets and
forgets them, so that the fibers that wait in `accept` come back.

Fibers of several threads run at once, and the calls of a user, the steps of a fiber and those of the task of
`stop` come in any order.  A fiber tests `m_stop`, calls `accept_f`, registers for its event when there is no
connection yet (`do_io`), waits, and hands a connection on.  The task calls `cancelAll` for a socket, `close`
calls it once more, and then the descriptor is closed.  `start` and `stop` are one step each, although
`m_stop` is a plain `bool` that `start` tests before it assigns it.  `bind` while the task goes through
`m_socks`, and two such tasks at once, have no next state.  The sockets are made where hooks are on, and the
numbers of the descriptors are not modelled: a fiber in `accept` gets errors from a closed socket, and not
what another socket gets that has its number since.

`start` on a server that was stopped but whose fibers have not ended makes a second fiber for each listening socket,
and two fibers that wait for one descriptor break an assertion of `addEvent`.  There is one fiber
for each socket at any time exactly in the runs in which `start` takes effect only when no
fiber is left (`loops_nodup_iff`).

Where no `start` comes between a `stop` and the end of its task, no `bind` of several addresses fails
while fibers run, and no fiber registers for a socket between the last `cancelAll` and the closing of its
descriptor (the task and the fibers share one thread, say), the fibers of a stopped server all end: each makes
two more steps at most, connections that were accepted are handed on and no others, and as long as a fiber is
left one can step (`stop_ends`).  A fiber that registers in that gap waits for ever (`register_before_close`),
and a `start` before the task leaves fibers that call `accept` on a closed socket for ever
(`start_before_stopTask`). -/

import Mathlib.Data.List.Perm.Basic
import Wuchat.Foundation.Places
import Wuchat.Foundation.System

namespace Wuchat
namespace Net

open Foundation

/-- Where a fiber of `startAccept` is: before its test; before `accept_f`; behind an `EAGAIN`, before `addEvent`;
waiting for its event; or with a connection for the worker. -/
inductive Place
  | testing
  | calling
  | registering
  | waiting
  | handing (client : Nat)
  deriving DecidableEq, Repr

/-- A fiber of `startAccept`, with its socket. -/
structure Loop where
  sock : Nat
  place : Place
  deriving DecidableEq, Repr

/-- A task of `stop`: the sockets that it has still to close, and how often `cancelAll` is still called for the first of
them. -/
structure Closing where
  socks : List Nat
  cancels : Nat
  deriving DecidableEq, Repr

/-- `TCPServer`, with the sockets made and closed so far, its fibers, the tasks of `stop` that have not
begun yet, the one that runs, and the connections handed to the worker with their timeouts. -/
structure TCPServer where
  m_stop : Bool
  m_socks : List Nat
  m_recvTimeout : Nat
  made : Nat
  closed : List Nat
  loops : List Loop
  stopTasks : Nat
  task : Option Closing
  handed : List (Nat × Nat)
  deriving DecidableEq, Repr

/-- What `accept_f` answers: `EAGAIN`, another error, or a connection. -/
inductive Accepted
  | again
  | error
  | client (c : Nat)
  deriving DecidableEq, Repr

namespace TCPServer

/-- `TCPServer(worker, accept)`. -/
def new : TCPServer := ⟨true, [], 60 * 1000 * 2, 0, [], [], 0, none, []⟩

/-- The sockets that fibers use, one for each fiber. -/
def used (s : TCPServer) : List Nat := s.loops.map Loop.sock

/-- `bind(address)` that succeeds; one that fails changes nothing. -/
def bind (s : TCPServer) : TCPServer := { s with m_socks := s.m_socks ++ [s.made], made := s.made + 1 }

/-- `bind(addresses)`: `n` of them succeed, and the next fails unless they were all.  `m_socks.clear()` forgets
the sockets of earlier calls too, and closes those that no fiber uses. -/
def bindAll (s : TCPServer) (n : Nat) (ok : Bool) : TCPServer :=
  let socks := s.m_socks ++ List.range' s.made n
  if ok then { s with m_socks := socks, made := s.made + n }
  else { s with m_socks := [], made := s.made + n, closed := s.closed ++ socks.filter fun x => x ∉ s.used }

/-- `start()`. -/
def start (s : TCPServer) : TCPServer :=
  if !s.m_stop then s
  else { s with m_stop := false, loops := s.loops ++ s.m_socks.map fun sock => ⟨sock, .testing⟩ }

/-- `stop()`. -/
def stop (s : TCPServer) : TCPServer := { s with m_stop := true, stopTasks := s.stopTasks + 1 }

/-- A fiber gets to a place. -/
def go (s : TCPServer) (i sock : Nat) (place : Place) : TCPServer := { s with loops := s.loops.set i ⟨sock, place⟩ }

/-! ### The task of `stop` -/

/-- The task that `stop` schedules begins. -/
def stopTask (s : TCPServer) : Option TCPServer :=
  if s.stopTasks = 0 ∨ s.task ≠ none then none
  else some { s with stopTasks := s.stopTasks - 1, task := some ⟨s.m_socks, 2⟩ }

/-- A fiber that waits for the socket tries again. -/
def woken (sock : Nat) (l : Loop) : Loop := if l = ⟨sock, .waiting⟩ then ⟨sock, .calling⟩ else l

/-- `cancelAll(fd)`, by the task or by `close`. -/
def cancelAll (s : TCPServer) : Option TCPServer :=
  match s.task with
  | some ⟨sock :: socks, cancels + 1⟩ =>
    some { s with task := some ⟨sock :: socks, cancels⟩, loops := s.loops.map (woken sock) }
  | _ => none

/-- `close_f(fd)`. -/
def close (s : TCPServer) : Option TCPServer :=
  match s.task with
  | some ⟨sock :: socks, 0⟩ => some { s with task := some ⟨socks, 2⟩, closed := s.closed ++ [sock] }
  | _ => none

/-- `m_socks.clear()`. -/
def clear (s : TCPServer) : Option TCPServer :=
  match s.task with
  | some ⟨[], _⟩ => some { s with task := none, m_socks := [] }
  | _ => none

/-! ### The fibers -/

/-- The test of a fiber: it ends, or calls `accept`. -/
def test (s : TCPServer) (i : Nat) : Option TCPServer :=
  match s.loops[i]? with
  | some ⟨sock, .testing⟩ =>
    if s.m_stop then some { s with loops := s.loops.eraseIdx i }
    else some (s.go i sock .calling)
  | _ => none

/-- The return of `accept_f`; a closed socket has errors only. -/
def accept (s : TCPServer) (i : Nat) (answer : Accepted) : Option TCPServer :=
  match s.loops[i]? with
  | some ⟨sock, .calling⟩ =>
    match answer with
    | .error => some (s.go i sock .testing)
    | .again => if sock ∈ s.closed then none else some (s.go i sock .registering)
    | .client c => if sock ∈ s.closed then none else some (s.go i sock (.handing c))
  | _ => none

/-- `addEvent(fd, READ)`: another fiber that waits for the socket breaks an assertion; for a closed one it fails, and so
does `accept`. -/
def register (s : TCPServer) (i : Nat) : Option TCPServer :=
  match s.loops[i]? with
  | some ⟨sock, .registering⟩ =>
    if ⟨sock, .waiting⟩ ∈ s.loops then none
    else some (s.go i sock (if sock ∈ s.closed then .testing else .waiting))
  | _ => none

/-- The event of an open socket wakes the fiber, which tries again. -/
def ready (s : TCPServer) (i : Nat) : Option TCPServer :=
  match s.loops[i]? with
  | some ⟨sock, .waiting⟩ => if sock ∈ s.closed then none else some (s.go i sock .calling)
  | _ => none

/-- The connection gets its timeout and is given to the worker. -/
def hand (s : TCPServer) (i : Nat) : Option TCPServer :=
  match s.loops[i]? with
  | some ⟨sock, .handing c⟩ => some { s.go i sock .testing with handed := s.handed ++ [(c, s.m_recvTimeout)] }
  | _ => none

/-- A step. -/
inductive Step
  | bind
  | bindAll (n : Nat) (ok : Bool)
  | setRecvTimeout (timeout : Nat)
  | start
  | stop
  | stopTask
  | cancelAll
  | close
  | clear
  | test (i : Nat)
  | accept (i : Nat) (answer : Accepted)
  | register (i : Nat)
  | ready (i : Nat)
  | hand (i : Nat)
  deriving DecidableEq, Repr

/-- What a step does. -/
def step (s : TCPServer) : Step → Option TCPServer
  | .bind => if s.task = none then some s.bind else none
  | .bindAll n ok => if s.task = none then some (s.bindAll n ok) else none
  | .setRecvTimeout timeout => some { s with m_recvTimeout := timeout }
  | .start => some s.start
  | .stop => some s.stop
  | .stopTask => s.stopTask
  | .cancelAll => s.cancelAll
  | .close => s.close
  | .clear => s.clear
  | .test i => s.test i
  | .accept i answer => s.accept i answer
  | .register i => s.register i
  | .ready i => s.ready i
  | .hand i => s.hand i

/-- A server, its fibers and its users. -/
def system : System TCPServer Step := ⟨new, step⟩

/-! ### What a step of a fiber does -/

variable {s t : TCPServer} {i : Nat}

/-- The steps of fibers. -/
def isFiber : Step → Bool
  | .test _ | .accept _ _ | .register _ | .ready _ | .hand _ => true
  | _ => false

/-- From one place to another, as a fiber of the server goes: a closed socket has errors only, and a connection that is
handed on has been accepted. -/
inductive Moves (s : TCPServer) (sock : Nat) : Place → Place → Prop
  | test (h : s.m_stop = false) : Moves s sock .testing .calling
  | error : Moves s sock .calling .testing
  | again (h : sock ∉ s.closed) : Moves s sock .calling .registering
  | client (c : Nat) (h : sock ∉ s.closed) : Moves s sock .calling (.handing c)
  | refused (h : sock ∈ s.closed) : Moves s sock .registering .testing
  | register (h : sock ∉ s.closed) : Moves s sock .registering .waiting
  | ready (h : sock ∉ s.closed) : Moves s sock .waiting .calling

/-- **What a fiber does**: it ends in a stopped server, goes on to a place, or hands a connection on. -/
theorem fiber_cases {l : Step} (hl : isFiber l = true) (h : s.step l = some t) : ∃ i sock place,
    s.loops[i]? = some ⟨sock, place⟩ ∧
    (place = .testing ∧ s.m_stop = true ∧ t = { s with loops := s.loops.eraseIdx i } ∨
      (∃ c, place = .handing c ∧
        t = { s.go i sock .testing with handed := s.handed ++ [(c, s.m_recvTimeout)] }) ∨
      ∃ place', Moves s sock place place' ∧ (place' = .waiting → l = .register i) ∧ t = s.go i sock place') := by
  cases l with
  | bind | bindAll | setRecvTimeout | start | stop | stopTask | cancelAll | close | clear => cases hl
  | test i =>
    simp only [step, test] at h
    split at h
    · rename_i sock hi
      refine ⟨i, sock, _, hi, ?_⟩
      split at h
      · rename_i hstop
        exact .inl ⟨rfl, hstop, (Option.some.inj h).symm⟩
      · rename_i hstop
        exact .inr (.inr ⟨_, .test (Bool.eq_false_iff.mpr hstop), nofun, (Option.some.inj h).symm⟩)
    · cases h
  | accept i answer =>
    simp only [step, accept] at h
    split at h
    · rename_i sock hi
      refine ⟨i, sock, _, hi, .inr (.inr ?_)⟩
      cases answer with
      | error => exact ⟨_, .error, nofun, (Option.some.inj h).symm⟩
      | again =>
        dsimp only at h
        split at h
        · cases h
        · rename_i hopen
          exact ⟨_, .again hopen, nofun, (Option.some.inj h).symm⟩
      | client c =>
        dsimp only at h
        split at h
        · cases h
        · rename_i hopen
          exact ⟨_, .client c hopen, nofun, (Option.some.inj h).symm⟩
    · cases h
  | register i =>
    simp only [step, register] at h
    split at h
    · rename_i sock hi
      refine ⟨i, sock, _, hi, .inr (.inr ?_)⟩
      split at h
      · cases h
      · split at h
        · rename_i hclosed
          exact ⟨_, .refused hclosed, nofun, (Option.some.inj h).symm⟩
        · rename_i hopen
          exact ⟨_, .register hopen, fun _ => rfl, (Option.some.inj h).symm⟩
    · cases h
  | ready i =>
    simp only [step, ready] at h
    split at h
    · rename_i sock hi
      refine ⟨i, sock, _, hi, .inr (.inr ?_)⟩
      split at h
      · cases h
      · rename_i hopen
        exact ⟨_, .ready hopen, nofun, (Option.some.inj h).symm⟩
    · cases h
  | hand i =>
    simp only [step, hand] at h
    split at h
    · rename_i sock c hi
      exact ⟨i, sock, _, hi, .inr (.inl ⟨c, rfl, (Option.some.inj h).symm⟩)⟩
    · cases h

/-- A fiber keeps its socket. -/
theorem map_sock_set {loops : List Loop} {sock : Nat} {place place' : Place} (h : loops[i]? = some ⟨sock, place⟩) :
    (loops.set i ⟨sock, place'⟩).map Loop.sock = loops.map Loop.sock := by
  have hset := filterMap_set_eq (fun l : Loop => some l.sock) h (y := ⟨sock, place'⟩) rfl
  rwa [List.filterMap_eq_map'] at hset

/-- A fiber that goes on accepts on the same socket. -/
theorem sublist_set {loops : List Loop} {sock : Nat} {place place' : Place} (h : loops[i]? = some ⟨sock, place⟩) :
    ((loops.set i ⟨sock, place'⟩).map Loop.sock).Sublist (loops.map Loop.sock) := by
  rw [map_sock_set h]

/-- So does one that is woken. -/
theorem map_sock_woken (sock : Nat) (loops : List Loop) :
    (loops.map (woken sock)).map Loop.sock = loops.map Loop.sock := by
  rw [List.map_map]
  refine List.map_congr_left fun l _ => ?_
  rw [Function.comp_apply, woken]
  split
  · rename_i heq
    rw [heq]
  · rfl

/-- What a step of a fiber leaves: everything but the fibers and what is handed on, and of the fibers none is new. -/
theorem fiber_spec {l : Step} (hl : isFiber l = true) (h : s.step l = some t) : ∃ loops handed,
    t = { s with loops, handed } ∧ (loops.map Loop.sock).Sublist s.used := by
  obtain ⟨i, sock, place, hi, ⟨-, -, rfl⟩ | ⟨c, -, rfl⟩ | ⟨place', -, -, rfl⟩⟩ := fiber_cases hl h
  · exact ⟨_, _, rfl, (List.eraseIdx_sublist _ _).map _⟩
  · exact ⟨_, _, rfl, sublist_set hi⟩
  · exact ⟨_, _, rfl, sublist_set hi⟩

/-! ### What the task of `stop` does -/

/-- A step that is guarded. -/
theorem of_guarded {p : Prop} [Decidable p] {x : TCPServer} (h : (if p then some x else none) = some t) :
    p ∧ t = x := by
  split at h
  · rename_i hp
    exact ⟨hp, (Option.some.inj h).symm⟩
  · cases h

/-- What the start of the stop task does. -/
theorem stopTask_cases (h : s.stopTask = some t) : s.stopTasks ≠ 0 ∧ s.task = none ∧
    t = { s with stopTasks := s.stopTasks - 1, task := some ⟨s.m_socks, 2⟩ } := by
  unfold stopTask at h
  split at h
  · cases h
  · rename_i hidle
    rw [not_or, not_not] at hidle
    exact ⟨hidle.1, hidle.2, (Option.some.inj h).symm⟩

/-- What `cancelAll` of one socket does. -/
theorem cancelAll_cases (h : s.cancelAll = some t) : ∃ sock socks cancels, s.task = some ⟨sock :: socks, cancels + 1⟩ ∧
    t = { s with task := some ⟨sock :: socks, cancels⟩, loops := s.loops.map (woken sock) } := by
  unfold cancelAll at h
  split at h
  · rename_i sock socks cancels htask
    exact ⟨sock, socks, cancels, htask, (Option.some.inj h).symm⟩
  · cases h

/-- What `close` of one socket does. -/
theorem close_cases (h : s.close = some t) : ∃ sock socks, s.task = some ⟨sock :: socks, 0⟩ ∧
    t = { s with task := some ⟨socks, 2⟩, closed := s.closed ++ [sock] } := by
  unfold close at h
  split at h
  · rename_i sock socks htask
    exact ⟨sock, socks, htask, (Option.some.inj h).symm⟩
  · cases h

/-- What the end of the stop task does. -/
theorem clear_cases (h : s.clear = some t) : ∃ cancels, s.task = some ⟨[], cancels⟩ ∧
    t = { s with task := none, m_socks := [] } := by
  unfold clear at h
  split at h
  · rename_i cancels htask
    exact ⟨cancels, htask, (Option.some.inj h).symm⟩
  · cases h

/-! ### One fiber for each socket -/

/-- The steps that keep one fiber for each socket: `start` takes effect only when no fiber is left for a
listening socket. -/
def Quiet (s : TCPServer) (l : Step) : Prop := l = .start → s.m_stop = true → ∀ x ∈ s.m_socks, x ∉ s.used

/-- The listening sockets are different, no two fibers use one, and there are no others. -/
structure Single (s : TCPServer) : Prop where
  socks : s.m_socks.Nodup
  fibers : s.used.Nodup
  known : ∀ x ∈ s.m_socks ++ s.used, x < s.made

/-- The fibers that are left use the sockets they had. -/
theorem Single.fewer {loops : List Loop} (h : Single s) (hl : (loops.map Loop.sock).Sublist s.used)
    (handed : List (Nat × Nat)) : Single { s with loops, handed } :=
  ⟨h.socks, h.fibers.sublist hl, fun x hx => h.known x
    (List.mem_append.mpr ((List.mem_append.mp hx).imp_right fun hx => hl.subset hx))⟩

/-- A new server has no fiber. -/
theorem single_new : Single new := ⟨List.nodup_nil, List.nodup_nil, by simp [new, used]⟩

/-- New sockets are different from the old ones. -/
theorem Single.listen (h : Single s) (n : Nat) :
    Single { s with m_socks := s.m_socks ++ List.range' s.made n, made := s.made + n } := by
  have hnew : ∀ x ∈ List.range' s.made n, s.made ≤ x ∧ x < s.made + n := fun x hx => by
    simpa [List.mem_range'_1] using hx
  refine ⟨List.nodup_append.mpr ⟨h.socks, List.nodup_range', ?_⟩, h.fibers, fun x hx => ?_⟩
  · rintro x hx y hy rfl
    have := h.known x (List.mem_append_left _ hx)
    have := (hnew x hy).1
    omega
  · rcases List.mem_append.mp hx with hx | hx
    · rcases List.mem_append.mp hx with hx | hx
      · exact Nat.lt_add_right n (h.known x (List.mem_append_left _ hx))
      · exact (hnew x hx).2
    · exact Nat.lt_add_right n (h.known x (List.mem_append_right _ hx))

/-- A `start` that takes effect makes a fiber for each listening socket. -/
theorem used_start (hstop : s.m_stop = true) : s.start.used = s.used ++ s.m_socks := by
  rw [start, hstop, Bool.not_true, if_neg Bool.false_ne_true, used, List.map_append, List.map_map]
  exact congrArg (_ ++ ·) (List.map_id _)

/-- A quiet `start` makes fibers for sockets that have none. -/
theorem Single.start (h : Single s) (hq : Quiet s .start) : Single s.start := by
  cases hstop : s.m_stop with
  | false =>
    rw [TCPServer.start, hstop]
    exact h
  | true =>
    have hfree := hq rfl hstop
    have hsame : s.start.m_socks = s.m_socks ∧ s.start.made = s.made := by
      rw [TCPServer.start, hstop]
      exact ⟨rfl, rfl⟩
    refine ⟨hsame.1 ▸ h.socks, ?_, fun x hx => ?_⟩
    · rw [used_start hstop]
      refine List.nodup_append.mpr ⟨h.fibers, h.socks, ?_⟩
      rintro x hx y hy rfl
      exact hfree x hy hx
    · rw [hsame.1, used_start hstop] at hx
      rw [hsame.2]
      simp only [List.mem_append] at hx
      exact h.known x (by simp only [List.mem_append]; tauto)

/-- A quiet step gives no socket a second fiber. -/
theorem Single.step {l : Step} (h : Single s) (hq : Quiet s l) (hstep : s.step l = some t) : Single t := by
  cases l with
  | bind =>
    obtain ⟨-, rfl⟩ := of_guarded hstep
    exact h.listen 1
  | bindAll n ok =>
    obtain ⟨-, rfl⟩ := of_guarded hstep
    cases ok with
    | true => exact h.listen n
    | false =>
      exact ⟨List.nodup_nil, h.fibers, fun x hx => Nat.lt_add_right n (h.known x (List.mem_append_right _ hx))⟩
  | setRecvTimeout timeout =>
    cases hstep
    exact ⟨h.socks, h.fibers, h.known⟩
  | start =>
    cases hstep
    exact h.start hq
  | stop =>
    cases hstep
    exact ⟨h.socks, h.fibers, h.known⟩
  | stopTask =>
    obtain ⟨-, -, rfl⟩ := stopTask_cases hstep
    exact ⟨h.socks, h.fibers, h.known⟩
  | cancelAll =>
    obtain ⟨sock, socks, cancels, -, rfl⟩ := cancelAll_cases hstep
    have hused := map_sock_woken sock s.loops
    refine ⟨h.socks, ?_, ?_⟩
    · rw [used, hused]
      exact h.fibers
    · rw [used, hused]
      exact h.known
  | close =>
    obtain ⟨sock, socks, -, rfl⟩ := close_cases hstep
    exact ⟨h.socks, h.fibers, h.known⟩
  | clear =>
    obtain ⟨-, -, rfl⟩ := clear_cases hstep
    exact ⟨List.nodup_nil, h.fibers, fun x hx => h.known x (List.mem_append_right _ hx)⟩
  | test | accept | register | ready | hand =>
    obtain ⟨loops, handed, rfl, hsub⟩ := fiber_spec rfl hstep
    exact h.fewer hsub handed

/-- **When there is never more than one fiber for a socket**: exactly in the runs in which every `start` of a stopped
server comes when no fiber is left for a listening socket. -/
theorem loops_nodup_iff {ls : List Step} {s : TCPServer} (h : system.Run anyStep ls s) :
    (∀ ls' s', ls' <+: ls → system.Run anyStep ls' s' → s'.used.Nodup) ↔ system.Run Quiet ls s := by
  have hsingle : ∀ ls s, system.Run Quiet ls s → Single s := fun ls s hrun =>
    hrun.invariant (I := fun _ s => Single s) single_new fun _ _ _ _ hI hok hn => hI.step hok hn
  refine System.Run.always_iff (fun ls s hrun => (hsingle ls s hrun).fibers) (fun ls s l t _ hnot hn => ?_) h
  unfold Quiet at hnot
  push Not at hnot
  obtain ⟨rfl, hstop, x, hx, hused⟩ := hnot
  cases hn
  intro hnodup
  rw [used_start hstop] at hnodup
  exact (List.nodup_append.mp hnodup).2.2 x hused x hx rfl

/-! ### A stopped server -/

/-- The steps that leave no fiber behind: no `start` between a `stop` and the end of its task, no failing `bind` of
several addresses while a fiber uses an open socket, and no fiber that registers for a socket between the last
`cancelAll` for it and its closing. -/
def Orderly (s : TCPServer) : Step → Prop
  | .start => s.stopTasks = 0 ∧ s.task = none
  | .bindAll _ false => ∀ x ∈ s.used, x ∈ s.closed
  | .register i => ∀ l ∈ s.loops[i]?, ∀ k ∈ s.task, k.cancels = 0 → k.socks.head? ≠ some l.sock
  | _ => True

/-- Whether a step is in order can be computed. -/
instance (s : TCPServer) : (l : Step) → Decidable (Orderly s l)
  | .start => inferInstanceAs (Decidable (s.stopTasks = 0 ∧ s.task = none))
  | .bindAll _ false => inferInstanceAs (Decidable (∀ x ∈ s.used, x ∈ s.closed))
  | .register i =>
    inferInstanceAs (Decidable (∀ l ∈ s.loops[i]?, ∀ k ∈ s.task, k.cancels = 0 → k.socks.head? ≠ some l.sock))
  | .bindAll _ true | .bind | .setRecvTimeout _ | .stop | .stopTask | .cancelAll | .close | .clear | .test _
  | .accept _ _ | .ready _ | .hand _ => .isTrue trivial

/-- **What holds of a server at any time.**  A fiber's socket is a listening one or closed; the task of `stop` has
those to close that are open; while there is such a task the server is stopped, and a stopped server without one has
closed the sockets of its fibers.  No fiber waits for a closed socket, nor for one that is about to be closed. -/
structure Reached (s : TCPServer) : Prop where
  known : ∀ x ∈ s.used, x ∈ s.m_socks ∨ x ∈ s.closed
  stopped : s.stopTasks ≠ 0 ∨ s.task ≠ none → s.m_stop = true
  closing : ∀ k ∈ s.task, ∀ x ∈ s.m_socks, x ∈ k.socks ∨ x ∈ s.closed
  closed : s.m_stop = true → s.stopTasks = 0 → s.task = none → ∀ x ∈ s.used, x ∈ s.closed
  awake : ∀ l ∈ s.loops, l.place = .waiting → l.sock ∉ s.closed
  cancelled : ∀ l ∈ s.loops, l.place = .waiting → ∀ k ∈ s.task, k.cancels = 0 → k.socks.head? ≠ some l.sock

/-- Fibers go on with the sockets they have. -/
theorem Reached.fewer {loops : List Loop} (h : Reached s) (hl : (loops.map Loop.sock).Sublist s.used)
    (hawake : ∀ l ∈ loops, l.place = .waiting → l.sock ∉ s.closed)
    (hcancelled : ∀ l ∈ loops, l.place = .waiting → ∀ k ∈ s.task, k.cancels = 0 → k.socks.head? ≠ some l.sock)
    (handed : List (Nat × Nat)) : Reached { s with loops, handed } :=
  ⟨fun x hx => h.known x (hl.subset hx), h.stopped, h.closing, fun hs ht hk x hx => h.closed hs ht hk x (hl.subset hx),
    hawake, hcancelled⟩

/-- A new server. -/
theorem reached_new : Reached new where
  known := nofun
  stopped h := h.elim (absurd rfl) (absurd rfl)
  closing := nofun
  closed _ _ _ := nofun
  awake := nofun
  cancelled := nofun

/-- A fiber's step keeps it. -/
theorem Reached.fiber {l : Step} (h : Reached s) (hl : isFiber l = true) (hok : Orderly s l)
    (hstep : s.step l = some t) : Reached t := by
  obtain ⟨i, sock, place, hi, ⟨-, -, rfl⟩ | ⟨c, -, rfl⟩ | ⟨place', hmoves, hreg, rfl⟩⟩ := fiber_cases hl hstep
  · have hsub := List.eraseIdx_sublist s.loops i
    exact h.fewer (hsub.map _) (fun l hmem => h.awake l (hsub.subset hmem))
      (fun l hmem => h.cancelled l (hsub.subset hmem)) s.handed
  · refine h.fewer (sublist_set hi) ?_ ?_ _
    · exact forall_mem_set h.awake nofun
    · exact forall_mem_set h.cancelled nofun
  · refine h.fewer (sublist_set hi) ?_ ?_ s.handed
    · refine forall_mem_set h.awake fun hwaiting => ?_
      cases hwaiting
      cases hmoves with
      | register hopen => exact hopen
    · refine forall_mem_set h.cancelled fun hwaiting => ?_
      rw [hreg hwaiting] at hok
      exact hok ⟨sock, place⟩ hi

/-- `start` keeps it when no task of `stop` is left. -/
theorem Reached.start (h : Reached s) (hok : Orderly s .start) : Reached s.start := by
  obtain ⟨htasks, htask⟩ := hok
  cases hstop : s.m_stop with
  | false =>
    rw [TCPServer.start, hstop]
    exact h
  | true =>
    have hknown : ∀ x ∈ s.start.used, x ∈ s.m_socks ∨ x ∈ s.closed := fun x hx => by
      rw [used_start hstop] at hx
      exact (List.mem_append.mp hx).elim (h.known x) .inl
    have hnew : ∀ {l : Loop}, l ∈ s.start.loops → l.place = .waiting → l ∈ s.loops := by
      intro l hl hwaiting
      rw [TCPServer.start, hstop] at hl
      refine (List.mem_append.mp hl).resolve_right fun hnew => ?_
      obtain ⟨x, -, rfl⟩ := List.mem_map.mp hnew
      cases hwaiting
    rw [TCPServer.start, hstop] at hknown hnew ⊢
    exact ⟨hknown, fun hany => hany.elim (absurd htasks) (absurd htask), h.closing, nofun,
      fun l hl hw => h.awake l (hnew hl hw) hw, fun l hl hw => h.cancelled l (hnew hl hw) hw⟩

/-- `cancelAll` keeps it: no fiber waits for the socket any more. -/
theorem Reached.cancelAll (h : Reached s) (hstep : s.cancelAll = some t) : Reached t := by
  obtain ⟨sock, socks, cancels, htask, rfl⟩ := cancelAll_cases hstep
  have hwoken : ∀ {l : Loop}, l ∈ s.loops.map (woken sock) → l.place = .waiting → l ∈ s.loops ∧ l.sock ≠ sock := by
    intro l hl hwaiting
    obtain ⟨l', hl', rfl⟩ := List.mem_map.mp hl
    unfold woken at hwaiting ⊢
    split
    · rw [if_pos ‹_›] at hwaiting
      cases hwaiting
    · rename_i hne
      rw [if_neg hne] at hwaiting
      exact ⟨hl', fun heq => hne (by cases l'; cases heq; cases hwaiting; rfl)⟩
  have hused : ∀ x, x ∈ (s.loops.map (woken sock)).map Loop.sock → x ∈ s.used := fun x hx => by
    rwa [map_sock_woken] at hx
  have hstopped := h.stopped (.inr (by rw [htask]; nofun))
  refine ⟨fun x hx => h.known x (hused x hx), fun _ => hstopped, fun k hk x hx => ?_,
    (fun _ _ hnone => nomatch hnone), fun l hl hw => h.awake l (hwoken hl hw).1 hw, fun l hl hw k hk _ hhead => ?_⟩
  · obtain rfl := Option.some.inj hk
    exact h.closing _ htask x hx
  · obtain rfl := Option.some.inj hk
    exact (hwoken hl hw).2 (Option.some.inj hhead).symm

/-- `close_f` keeps it: no fiber waits for the socket that is closed. -/
theorem Reached.close (h : Reached s) (hstep : s.close = some t) : Reached t := by
  obtain ⟨sock, socks, htask, rfl⟩ := close_cases hstep
  have hstopped := h.stopped (.inr (by rw [htask]; nofun))
  refine ⟨fun x hx => (h.known x hx).imp_right (List.mem_append_left _), fun _ => hstopped, fun k hk x hx => ?_,
    (fun _ _ hnone => nomatch hnone), fun l hl hw hmem => ?_, fun l _ _ k hk hzero => ?_⟩
  · obtain rfl := Option.some.inj hk
    rcases h.closing _ htask x hx with hin | hin
    · rcases List.mem_cons.mp hin with rfl | hin
      · exact .inr (List.mem_append_right _ (List.mem_singleton_self _))
      · exact .inl hin
    · exact .inr (List.mem_append_left _ hin)
  · rcases List.mem_append.mp hmem with hold | hnew
    · exact h.awake l hl hw hold
    · exact h.cancelled l hl hw _ htask rfl (congrArg some (List.mem_singleton.mp hnew).symm)
  · obtain rfl := Option.some.inj hk
    cases hzero

/-- The end of the task keeps it: every socket is closed by then. -/
theorem Reached.clear (h : Reached s) (hstep : s.clear = some t) : Reached t := by
  obtain ⟨cancels, htask, rfl⟩ := clear_cases hstep
  have hclosed : ∀ x ∈ s.used, x ∈ s.closed := fun x hx =>
    (h.known x hx).elim (fun hin => (h.closing _ htask x hin).resolve_left nofun) id
  have hstopped := h.stopped (.inr (by rw [htask]; nofun))
  exact { h with
    known := fun x hx => .inr (hclosed x hx)
    stopped := fun _ => hstopped
    closing := nofun
    closed := fun _ _ _ => hclosed
    cancelled := fun _ _ _ => nofun }

/-- Every step in order keeps what is reached. -/
theorem Reached.step {l : Step} (h : Reached s) (hok : Orderly s l) (hstep : s.step l = some t) : Reached t := by
  cases l with
  | bind =>
    obtain ⟨htask, rfl⟩ := of_guarded hstep
    exact { h with
      known := fun x hx => (h.known x hx).imp_left (List.mem_append_left _)
      closing := fun k hk => by rw [show (s.bind).task = none from htask] at hk; cases hk }
  | bindAll n ok =>
    obtain ⟨htask, rfl⟩ := of_guarded hstep
    cases ok with
    | true =>
      exact { h with
        known := fun x hx => (h.known x hx).imp_left (List.mem_append_left _)
        closing := fun k hk => by rw [show (s.bindAll n true).task = none from htask] at hk; cases hk }
    | false =>
      have hclosed : ∀ x ∈ s.used, x ∈ (s.bindAll n false).closed := fun x hx => List.mem_append_left _ (hok x hx)
      exact { h with
        known := fun x hx => .inr (hclosed x hx)
        closing := fun k hk => by rw [show (s.bindAll n false).task = none from htask] at hk; cases hk
        closed := fun _ _ _ => hclosed
        awake := fun l hmem hwaiting => absurd (hok l.sock (List.mem_map_of_mem hmem)) (h.awake l hmem hwaiting) }
  | setRecvTimeout timeout =>
    cases hstep
    exact { h with }
  | start =>
    cases hstep
    exact h.start hok
  | stop =>
    cases hstep
    exact { h with
      stopped := fun _ => rfl
      closed := fun _ htasks => nomatch htasks }
  | stopTask =>
    obtain ⟨htasks, htask, rfl⟩ := stopTask_cases hstep
    exact { h with
      stopped := fun _ => h.stopped (.inl htasks)
      closing := fun k hk x hx => by
        obtain rfl := Option.some.inj hk
        exact .inl hx
      closed := fun _ _ hnone => nomatch hnone
      cancelled := fun l _ _ k hk hzero => by
        obtain rfl := Option.some.inj hk
        cases hzero }
  | cancelAll => exact h.cancelAll hstep
  | close => exact h.close hstep
  | clear => exact h.clear hstep
  | test | accept | register | ready | hand => exact h.fiber rfl hok hstep

/-- How many steps a fiber of a stopped server has left. -/
def stepsLeft (l : Loop) : Nat := if l.place = .testing then 1 else 2

/-- How many steps the fibers of a stopped server have left. -/
def left (s : TCPServer) : Nat := (s.loops.map stepsLeft).sum

/-- Each fiber has at most two steps left. -/
theorem left_le (s : TCPServer) : s.left ≤ 2 * s.loops.length := by
  unfold left
  induction s.loops with
  | nil => exact Nat.le_refl 0
  | cons l loops ih =>
    rw [List.map_cons, List.sum_cons, List.length_cons, stepsLeft]
    split <;> omega

/-- Taking an element out of a list takes its part out of a sum. -/
theorem sum_eraseIdx {α : Type} (f : α → Nat) {xs : List α} {x : α} (h : xs[i]? = some x) :
    ((xs.eraseIdx i).map f).sum + f x = (xs.map f).sum := by
  induction xs generalizing i with
  | nil => cases h
  | cons y ys ih =>
    cases i with
    | zero =>
      obtain rfl := Option.some.inj h
      simp [Nat.add_comm]
    | succ i =>
      have := ih (i := i) h
      simp only [List.eraseIdx_cons_succ, List.map_cons, List.sum_cons]
      omega

/-- The connection that a fiber is to hand on. -/
def Loop.client (l : Loop) : Option Nat :=
  match l.place with
  | .handing c => some c
  | _ => none

/-- The connections that are accepted and not yet handed on. -/
def held (s : TCPServer) : List Nat := s.loops.filterMap Loop.client

/-- A stopped server whose fibers have closed sockets, for none of which they wait; and the connections handed on since
it was in the state `s₀`, which were held there. -/
structure Stopped (s₀ s : TCPServer) : Prop where
  stop : s.m_stop = true
  closed : ∀ x ∈ s.used, x ∈ s.closed
  awake : ∀ l ∈ s.loops, l.place ≠ .waiting
  timeout : s.m_recvTimeout = s₀.m_recvTimeout
  handed : ∃ sent, s.handed = s₀.handed ++ sent.map (·, s₀.m_recvTimeout) ∧ (sent ++ s.held).Perm s₀.held

/-- **A step of a fiber of a stopped server** brings it nearer to its end, and hands on only what was accepted. -/
theorem Stopped.step {s₀ : TCPServer} {l : Step} (h : Stopped s₀ s) (hl : isFiber l = true)
    (hstep : s.step l = some t) : Stopped s₀ t ∧ t.left < s.left := by
  obtain ⟨sent, hhanded, hperm⟩ := h.handed
  obtain ⟨i, sock, place, hi, hcases⟩ := fiber_cases hl hstep
  have hclosed : sock ∈ s.closed := h.closed sock (List.mem_map.mpr ⟨_, List.mem_of_getElem? hi, rfl⟩)
  have hsocks : ∀ place', ∀ x ∈ (s.loops.set i ⟨sock, place'⟩).map Loop.sock, x ∈ s.closed := fun place' x hx => by
    rw [map_sock_set hi] at hx
    exact h.closed x hx
  rcases hcases with ⟨rfl, -, rfl⟩ | ⟨c, rfl, rfl⟩ | ⟨place', hmoves, -, rfl⟩
  · have hsub := List.eraseIdx_sublist s.loops i
    refine ⟨⟨h.stop, fun x hx => h.closed x ((hsub.map _).subset hx), fun l hmem => h.awake l (hsub.subset hmem),
      h.timeout, sent, hhanded, ?_⟩, ?_⟩
    · obtain ⟨hlt, hget⟩ := List.getElem?_eq_some_iff.mp hi
      have hfibers := List.getElem_cons_eraseIdx_perm hlt
      rw [hget] at hfibers
      have hheld : ((s.loops.eraseIdx i).filterMap Loop.client).Perm s.held := hfibers.filterMap Loop.client
      exact (hheld.append_left sent).trans hperm
    · have := sum_eraseIdx stepsLeft hi
      rw [stepsLeft, if_pos rfl] at this
      simp only [left]
      omega
  · refine ⟨⟨h.stop, hsocks _, forall_mem_set h.awake nofun, h.timeout, sent ++ [c], ?_, ?_⟩, ?_⟩
    · show s.handed ++ [(c, s.m_recvTimeout)] = _
      rw [hhanded, h.timeout, List.map_append, List.append_assoc]
      rfl
    · obtain ⟨rest, hheld, hset⟩ := filterMap_set Loop.client hi
      have hnow : ((s.loops.set i ⟨sock, .testing⟩).filterMap Loop.client).Perm rest := hset ⟨sock, .testing⟩
      have hbefore : s.held.Perm ([c] ++ rest) := hheld
      show (sent ++ [c] ++ (s.loops.set i ⟨sock, .testing⟩).filterMap Loop.client).Perm s₀.held
      rw [List.append_assoc]
      exact ((hnow.append_left [c]).trans hbefore.symm).append_left sent |>.trans hperm
    · have := sum_map_set stepsLeft hi ⟨sock, .testing⟩
      rw [show stepsLeft ⟨sock, .handing c⟩ = 2 from rfl, stepsLeft, if_pos rfl] at this
      simp only [left, go]
      omega
  · obtain ⟨rfl, hplace⟩ : place' = .testing ∧ (place = .calling ∨ place = .registering) := by
      cases hmoves with
      | test hrun => rw [h.stop] at hrun; cases hrun
      | error => exact ⟨rfl, .inl rfl⟩
      | again hopen | client c hopen | register hopen | ready hopen => exact absurd hclosed hopen
      | refused => exact ⟨rfl, .inr rfl⟩
    have hclient : Loop.client ⟨sock, place⟩ = none := by rcases hplace with rfl | rfl <;> rfl
    have hleft : stepsLeft ⟨sock, place⟩ = 2 := by rcases hplace with rfl | rfl <;> rfl
    have hheld : (s.go i sock .testing).held = s.held :=
      filterMap_set_eq Loop.client hi (hclient.symm : Loop.client ⟨sock, .testing⟩ = _)
    refine ⟨⟨h.stop, hsocks _, forall_mem_set h.awake nofun, h.timeout, sent, hhanded, ?_⟩, ?_⟩
    · rw [hheld]
      exact hperm
    · have := sum_map_set stepsLeft hi ⟨sock, .testing⟩
      rw [hleft, stepsLeft, if_pos rfl] at this
      simp only [left, go]
      omega

/-- A fiber that is left can step. -/
theorem Stopped.exists_step {s₀ : TCPServer} (h : Stopped s₀ s) (hne : s.loops ≠ []) :
    ∃ l t, isFiber l = true ∧ s.step l = some t := by
  obtain ⟨⟨sock, place⟩, rest, hl⟩ := List.exists_cons_of_ne_nil hne
  have hi : s.loops[0]? = some ⟨sock, place⟩ := by rw [hl]; rfl
  cases place with
  | testing =>
    exact ⟨.test 0, _, rfl, by rw [TCPServer.step, test, hi]; exact if_pos h.stop⟩
  | calling => exact ⟨.accept 0 .error, s.go 0 sock .testing, rfl, by rw [TCPServer.step, accept, hi]⟩
  | registering =>
    have hnone : ⟨sock, .waiting⟩ ∉ s.loops := fun hmem => h.awake _ hmem rfl
    exact ⟨.register 0, _, rfl, by rw [TCPServer.step, register, hi]; exact if_neg hnone⟩
  | waiting => exact absurd rfl (h.awake _ (List.mem_of_getElem? hi))
  | handing c => exact ⟨.hand 0, _, rfl, by rw [TCPServer.step, hand, hi]⟩

/-- Two listening sockets; a connection on the first is handed on and its fiber waits again, the other has one in hand
when the server is stopped. -/
def stopRun : List Step :=
  [.bindAll 2 true, .start, .test 0, .test 1, .accept 0 (.client 7), .hand 0, .test 0, .accept 0 .again, .register 0,
    .accept 1 (.client 8), .stop, .stopTask, .cancelAll, .accept 0 .again, .register 0, .cancelAll, .close, .cancelAll,
    .cancelAll, .close, .clear]

/-- The server after it. -/
def stopRunServer : TCPServer :=
  ⟨true, [], 120000, 2, [0, 1], [⟨0, .calling⟩, ⟨1, .handing 8⟩], 0, none, [(7, 120000)]⟩

/-- The server when the second connection is handed on and the first fiber is back before its test. -/
def stopRunEnd : TCPServer :=
  { stopRunServer with loops := [⟨0, .testing⟩, ⟨1, .testing⟩], handed := [(7, 120000), (8, 120000)] }

/-- The statement at the same run. -/
theorem loops_nodup_iff_stopRun :
    (∀ ls' s', ls' <+: stopRun → system.Run anyStep ls' s' → s'.used.Nodup) ↔
      system.Run Quiet stopRun stopRunServer :=
  loops_nodup_iff (System.run_of_exec (g := fun _ _ => true) (fun _ _ _ => trivial) (by decide))

/-- **A `start` between a `stop` and its task**: the fiber then tests and accepts on a closed socket for ever. -/
theorem start_before_stopTask : ∃ s, system.exec (fun _ _ => true) new
      [.bind, .start, .test 0, .stop, .accept 0 .error, .test 0, .start, .stopTask, .cancelAll, .cancelAll, .close,
        .clear] = some s ∧
    s.closed = [0] ∧ s.used = [0] ∧ system.exec (fun _ _ => true) s [.test 0, .accept 0 .error] = some s := by
  refine ⟨_, rfl, ?_⟩
  decide

/-- **A fiber that registers before the descriptor is closed** is left alone: no step of a fiber is possible
any more. -/
theorem register_before_close : ∃ s, system.exec (fun _ _ => true) new
      [.bind, .start, .test 0, .accept 0 .again, .stop, .stopTask, .cancelAll, .cancelAll, .register 0, .close,
        .clear] = some s ∧
    s.loops = [⟨0, .waiting⟩] ∧ ∀ l, isFiber l = true → s.step l = none := by
  refine ⟨_, rfl, rfl, fun l hl => ?_⟩
  cases l with
  | test i | accept i | register i | ready i | hand i => rcases i with _ | i <;> rfl
  | bind | bindAll | setRecvTimeout | start | stop | stopTask | cancelAll | close | clear => cases hl

end TCPServer

end Net
end Wuchat
