/-
# Hooked calls and the reuse of descriptors

`hook.cpp`: `socket` and `accept` make a context for a new descriptor, the `do_io` based
calls wait for an event on theirs, and `close` cancels the events of a descriptor, which
schedules the fibers that wait for them, deletes its context and closes it.  Any number of
calls run at a time, and the steps of all of them, those of `close` included, interleave.

The kernel gives every socket a number of its own here, and a descriptor to it that is not
in use.  A call remembers the socket its descriptor stood for when it began (`sock`); the
code does not.  The log lists which call did its system call on which socket.  A system call
on a descriptor that is not open fails, and so does `epoll_ctl`.  A second registration
fails the assertion of `addEvent` and has no next state.

The waits themselves are in `Hook.DoIo`; here the expiry of a timer sets the flag of a call,
and whatever ends a registration is one step (`trigger`).  A call that is resumed cancels its timer, which is undefined
for one that `listExpiredCb` has collected already: what `Hook.DoIo` says of that is left out here, and `resume` goes on
as if the timer had been there.

A woken call tries again on the bare descriptor.  Its system calls are on its own socket,
and it returns an error when that was closed while it waited, in every run in which no
descriptor is given out again while a call on it is in progress and no call is registered on
a descriptor when it is closed (`calls_keep_socket`).  A descriptor that is reopened before
the woken call runs leads it to the new socket (`reads_other_socket`).
-/

import Wuchat.Hook.DoIo
import Wuchat.Io.Manager

namespace Wuchat
namespace Sockets

open Foundation
open Fds (FdContext)
open DoIo (SysResult Outcome Entry entry)
open Io (Event)

/-- Where a call is: before its system call outside the loop or in it, before `addEvent`, yielded,
scheduled, or at its end. -/
inductive Place
  | direct
  | calling
  | registering
  | waiting
  | woken
  | returned (o : Outcome)
  deriving DecidableEq, Repr

/-- The call has returned. -/
def Place.isReturned : Place → Bool
  | .returned _ => true
  | _ => false

/-- A call of a `do_io` based function; `closedWaiting` says whether its socket was closed while it
waited. -/
structure IoCall where
  fd : Nat
  event : Event
  sock : Option Nat
  place : Place
  cancelled : Bool
  closedWaiting : Bool
  deriving DecidableEq, Repr

/-- How far a call of `close` is. -/
inductive CloseStage
  | cancelAll
  | del
  | closeF
  | done
  deriving DecidableEq, Repr

/-- A call did its system call on a socket. -/
structure Performed where
  call : Nat
  sock : Nat
  deriving DecidableEq, Repr

/-- The open descriptors with their sockets, the contexts of the `FdManager`, the registrations of
the `IOManager`, and the calls. -/
structure Net where
  sockets : Nat → Option Nat
  count : Nat
  ctxs : Nat → Option FdContext
  registered : Nat → Event → Option Nat
  calls : List IoCall
  closers : List (Nat × CloseStage)
  log : List Performed

/-- `EBADF`. -/
def EBADF : Nat := 9

/-- The outcome is -1 with an error. -/
def isError : Outcome → Bool
  | .result (.ok _) => false
  | _ => true

namespace Net

variable (s : Net)

/-- Nothing is open. -/
def new : Net := ⟨fun _ => none, 0, fun _ => none, fun _ _ => none, [], [], []⟩

/-- A call comes to another state. -/
def setCall (c : Nat) (k : IoCall) : Net := { s with calls := s.calls.set c k }

/-- The place a call begins at. -/
def firstPlace : Entry → Place
  | .direct => .direct
  | .badFd => .returned .badFd
  | .loop _ => .calling

/-- A call begins. -/
def start (fd : Nat) (event : Event) (timeoutSo : Int) (hookEnable : Bool) : Net :=
  { s with calls := s.calls ++
    [⟨fd, event, s.sockets fd, firstPlace (entry hookEnable (s.ctxs fd) timeoutSo), false, false⟩] }

/-- The system call of the call `c` in the state `k`, with the answer of the kernel on an open
descriptor. -/
def sysCall (c : Nat) (k : IoCall) (r : SysResult) : Net :=
  let r := if (s.sockets k.fd).isSome then r else .error EBADF
  let place := match k.place, r with
    | .calling, .EINTR => .calling
    | .calling, .EAGAIN => .registering
    | _, r => .returned (.result r)
  { s.setCall c { k with place } with
    log := s.log ++ ((s.sockets k.fd).map (Performed.mk c)).toList }

/-- A new socket under a descriptor. -/
def openFd (fd : Nat) : Net :=
  { s with sockets := Function.update s.sockets fd (some s.count), count := s.count + 1 }

/-- `addEvent` of the call `c` in the state `k`; `ok` is the answer of `epoll_ctl` on an open
descriptor. -/
def addEvent (c : Nat) (k : IoCall) (ok : Bool) : Net :=
  if (s.sockets k.fd).isSome ∧ ok = true then
    { s.setCall c { k with place := .waiting } with
      registered := Function.update s.registered k.fd
        (Function.update (s.registered k.fd) k.event (some c)) }
  else s.setCall c { k with place := .returned .noEvent }

/-- The end of a registration: its call is scheduled. -/
def trigger (fd : Nat) (event : Event) : Net :=
  match s.registered fd event with
  | none => s
  | some c =>
    match s.calls[c]? with
    | none => s
    | some k => { s.setCall c { k with place := .woken } with
        registered := Function.update s.registered fd (Function.update (s.registered fd) event none) }

/-- A call of `close` comes to another stage. -/
def setCloser (i fd : Nat) (stage : CloseStage) : Net :=
  { s with closers := s.closers.set i (fd, stage) }

/-- A call when `close_f(fd)` runs: it is marked if it waits on that socket. -/
def closed (fd : Nat) (k : IoCall) : IoCall :=
  if (k.place = .waiting ∨ k.place = .woken) ∧ k.fd = fd ∧ k.sock.isSome ∧ k.sock = s.sockets fd then
    { k with closedWaiting := true }
  else k

/-- `close_f(fd)`. -/
def closeF (fd : Nat) : Net :=
  { s with sockets := Function.update s.sockets fd none, calls := s.calls.map (s.closed fd) }

end Net

/-- The steps of the calls, of their environment, and of `socket`, `accept` and `close`. -/
inductive Move
  | start (fd : Nat) (event : Event) (timeoutSo : Int) (hookEnable : Bool)
  | sysCall (c : Nat) (r : SysResult)
  | accept (c fd : Nat)
  | addEvent (c : Nat) (ok : Bool)
  | trigger (fd : Nat) (event : Event)
  | expire (c : Nat)
  | resume (c : Nat)
  | socket (fd : Nat)
  | create (fd : Nat) (stat : Option Bool)
  | close (fd : Nat) (hookEnable : Bool)
  | cancelAll (i : Nat) (ok : Bool)
  | del (i : Nat)
  | closeF (i : Nat)
  deriving DecidableEq, Repr

/-- The state after a step. -/
def Net.next (s : Net) : Move → Option Net
  | .start fd event timeoutSo hookEnable => some (s.start fd event timeoutSo hookEnable)
  | .sysCall c r =>
    match s.calls[c]? with
    | some k => if k.place = .direct ∨ k.place = .calling then some (s.sysCall c k r) else none
    | none => none
  | .accept c fd =>
    match s.calls[c]? with
    | some k =>
      if (k.place = .direct ∨ k.place = .calling) ∧ (s.sockets k.fd).isSome ∧ s.sockets fd = none then
        some ((s.sysCall c k (.ok fd)).openFd fd)
      else none
    | none => none
  | .addEvent c ok =>
    match s.calls[c]? with
    | some k =>
      if k.place = .registering ∧ s.registered k.fd k.event = none then some (s.addEvent c k ok)
      else none
    | none => none
  | .trigger fd event => some (s.trigger fd event)
  | .expire c =>
    match s.calls[c]? with
    | some k => if k.place.isReturned then none else some (s.setCall c { k with cancelled := true })
    | none => none
  | .resume c =>
    match s.calls[c]? with
    | some k =>
      if k.place = .woken then
        some (s.setCall c { k with place := if k.cancelled then .returned .timedOut else .calling })
      else none
    | none => none
  | .socket fd => if s.sockets fd = none then some (s.openFd fd) else none
  | .create fd stat =>
    some (match s.ctxs fd with
      | some _ => s
      | none => { s with ctxs := Function.update s.ctxs fd (some (.new fd stat)) })
  | .close fd hookEnable =>
    some { s with
      closers := s.closers ++ [(fd, if hookEnable = true ∧ (s.ctxs fd).isSome then .cancelAll
        else .closeF)] }
  | .cancelAll i ok =>
    match s.closers[i]? with
    | some (fd, .cancelAll) =>
      some ((if ok then (s.trigger fd .read).trigger fd .write else s).setCloser i fd .del)
    | _ => none
  | .del i =>
    match s.closers[i]? with
    | some (fd, .del) => some ({ s with ctxs := Function.update s.ctxs fd none }.setCloser i fd .closeF)
    | _ => none
  | .closeF i =>
    match s.closers[i]? with
    | some (fd, .closeF) => some ((s.closeF fd).setCloser i fd .done)
    | _ => none

/-- The hooked calls as a system. -/
def system : System Net Move := ⟨.new, Net.next⟩

/-- No call that began on a socket is in progress on the descriptor. -/
def Net.Unused (s : Net) (fd : Nat) : Prop :=
  ∀ k ∈ s.calls, k.fd = fd → k.sock.isSome = true → k.place.isReturned = true

/-- No call is registered on the descriptor. -/
def Net.Free (s : Net) (fd : Nat) : Prop :=
  s.registered fd .read = none ∧ s.registered fd .write = none

/-- A descriptor is given out again only when no call on it is in progress, and closed only when no
call is registered on it. -/
def Move.Orderly (s : Net) : Move → Prop
  | .accept _ fd => s.Unused fd
  | .socket fd => s.Unused fd
  | .closeF i => ∀ p ∈ s.closers[i]?, s.Free p.1
  | _ => True

/-- The own next steps of a call, each if it can be taken: it is resumed, and does its system call.
-/
def Net.finish (s : Net) (c : Nat) (r : SysResult) : Net :=
  let s := (s.next (.resume c)).getD s
  (s.next (.sysCall c r)).getD s

/-- Every call on a socket has done its system calls on that one; and one whose socket was closed
while it waited has returned an error, or returns one when it goes on, whatever the kernel answers.
-/
structure Net.OwnSockets (s : Net) : Prop where
  performed : ∀ e ∈ s.log, ∀ k, s.calls[e.call]? = some k → ∀ sock, k.sock = some sock → e.sock = sock
  fails : ∀ (c : Nat) (k : IoCall), s.calls[c]? = some k → k.closedWaiting = true → ∀ r,
    ∃ k' o, (s.finish c r).calls[c]? = some k' ∧ k'.place = .returned o ∧ isError o = true

/-! ### What orderly steps keep -/

/-- A call whose socket was closed while it waited is scheduled or about to try again, and its
descriptor is not open; or it has returned an error. -/
def IoCall.Lost (s : Net) (k : IoCall) : Prop :=
  match k.place with
  | .woken | .calling => s.sockets k.fd = none
  | .returned o => isError o = true
  | _ => False

/-- What holds while the steps are orderly: a call in progress has its own socket under its
descriptor, or none. -/
structure Steady (s : Net) : Prop where
  owner : ∀ (c : Nat) (k : IoCall) (sock : Nat), s.calls[c]? = some k → k.sock = some sock →
    k.place.isReturned = false →
    s.sockets k.fd = some sock ∨ s.sockets k.fd = none
  performed : ∀ e ∈ s.log, ∃ k : IoCall, s.calls[e.call]? = some k ∧ ∀ sock, k.sock = some sock →
    e.sock = sock
  waiting : ∀ (c : Nat) (k : IoCall), s.calls[c]? = some k → k.place = .waiting →
    s.registered k.fd k.event = some c
  known : ∀ fd event c, s.registered fd event = some c →
    ∃ k : IoCall, s.calls[c]? = some k ∧ k.fd = fd ∧ k.event = event ∧ k.place = .waiting
  lost : ∀ (c : Nat) (k : IoCall), s.calls[c]? = some k → k.closedWaiting = true →
    k.sock.isSome = true ∧ k.Lost s

section

variable {s t : Net} {move : Move} {c fd : Nat} {k k' : IoCall}

/-- The calls after one of them has come to another state. -/
theorem setCall_cases {d : Nat} {x : IoCall} (hd : (s.setCall c k').calls[d]? = some x) :
    (d = c ∧ x = k') ∨ (d ≠ c ∧ s.calls[d]? = some x) := by
  have hd : (s.calls.set c k')[d]? = some x := hd
  rw [List.getElem?_set] at hd
  split at hd
  · rename_i heq
    split at hd
    · exact .inl ⟨heq.symm, (Option.some.inj hd).symm⟩
    · cases hd
  · rename_i hne
    exact .inr ⟨Ne.symm hne, hd⟩

/-- The call that was changed. -/
theorem setCall_self (hc : s.calls[c]? = some k) : (s.setCall c k').calls[c]? = some k' :=
  List.getElem?_set_self (List.getElem?_eq_some_iff.1 hc).1

/-- The others are left. -/
theorem setCall_ne {d : Nat} (hd : d ≠ c) : (s.setCall c k').calls[d]? = s.calls[d]? :=
  List.getElem?_set_ne (Ne.symm hd)

/-- The registrations after a change of one of them. -/
theorem update_registered (r : Nat → Event → Option Nat) (fd fd' : Nat) (ev ev' : Event)
    (v : Option Nat) :
    Function.update r fd (Function.update (r fd) ev v) fd' ev' =
      if fd' = fd ∧ ev' = ev then v else r fd' ev' := by
  by_cases hfd : fd' = fd
  · subst hfd
    rw [Function.update_self]
    by_cases hev : ev' = ev
    · rw [hev, Function.update_self, if_pos ⟨rfl, rfl⟩]
    · rw [Function.update_of_ne hev, if_neg fun hboth => hev hboth.2]
  · rw [Function.update_of_ne hfd, if_neg fun hboth => hfd hboth.1]

/-- An entry of the log stays about its call. -/
theorem performed_setCall (h : Steady s) (hc : s.calls[c]? = some k) (k' : IoCall)
    (hsock : k'.sock = k.sock) {e : Performed}
    (he : e ∈ s.log) : ∃ x, (s.setCall c k').calls[e.call]? = some x ∧ ∀ sock, x.sock = some sock →
      e.sock = sock := by
  obtain ⟨x, hx, hown⟩ := h.performed e he
  by_cases heq : e.call = c
  · rw [heq] at hx ⊢
    obtain rfl := Option.some.inj (hc.symm.trans hx)
    exact ⟨k', setCall_self hc, fun sock hs => hown sock (hsock.symm.trans hs)⟩
  · exact ⟨x, (setCall_ne heq).trans hx, hown⟩

/-- **A call goes on** without a change of its registration. -/
theorem Steady.setCall (h : Steady s) (hc : s.calls[c]? = some k) (hfd : k'.fd = k.fd)
    (hev : k'.event = k.event)
    (hsock : k'.sock = k.sock) (hclosed : k'.closedWaiting = k.closedWaiting)
    (hret : k'.place.isReturned = false → k.place.isReturned = false)
    (hwait : k'.place = .waiting ↔ k.place = .waiting) (hlost : k.closedWaiting = true → k'.Lost s) :
    Steady (s.setCall c k') := by
  refine ⟨fun d x sock hd hs hr => ?_, fun e he => performed_setCall h hc k' hsock he,
    fun d x hd hw => ?_,
    fun fd ev d hd => ?_, fun d x hd hx => ?_⟩
  · rcases setCall_cases hd with ⟨rfl, rfl⟩ | ⟨-, hd⟩
    · rw [hfd]
      exact h.owner d k sock hc (hsock.symm.trans hs) (hret hr)
    · exact h.owner d x sock hd hs hr
  · rcases setCall_cases hd with ⟨rfl, rfl⟩ | ⟨-, hd⟩
    · rw [hfd, hev]
      exact h.waiting d k hc (hwait.1 hw)
    · exact h.waiting d x hd hw
  · obtain ⟨x, hx, hxfd, hxev, hxw⟩ := h.known fd ev d hd
    by_cases heq : d = c
    · subst heq
      obtain rfl := Option.some.inj (hc.symm.trans hx)
      exact ⟨k', setCall_self hc, hfd.trans hxfd, hev.trans hxev, hwait.2 hxw⟩
    · exact ⟨x, (setCall_ne heq).trans hx, hxfd, hxev, hxw⟩
  · rcases setCall_cases hd with ⟨rfl, rfl⟩ | ⟨-, hd⟩
    · have hcl := hclosed.symm.trans hx
      exact ⟨hsock ▸ (h.lost d k hc hcl).1, hlost hcl⟩
    · exact h.lost d x hd hx

/-- A call begins. -/
theorem Steady.start (h : Steady s) (event : Event) (timeoutSo : Int) (hookEnable : Bool) :
    Steady (s.start fd event timeoutSo hookEnable) := by
  have hcases : ∀ {d : Nat} {x : IoCall}, (s.start fd event timeoutSo hookEnable).calls[d]? = some x →
      s.calls[d]? = some x ∨ (x.fd = fd ∧ x.sock = s.sockets fd ∧ x.closedWaiting = false ∧
        x.place ≠ .waiting) := by
    intro d x hd
    have hd : (s.calls ++ [_])[d]? = some x := hd
    rcases Nat.lt_trichotomy d s.calls.length with hlt | heq | hgt
    · rw [List.getElem?_append_left hlt] at hd
      exact .inl hd
    · rw [heq, List.getElem?_concat_length] at hd
      obtain rfl := Option.some.inj hd
      refine .inr ⟨rfl, rfl, rfl, ?_⟩
      show Net.firstPlace _ ≠ .waiting
      cases entry hookEnable (s.ctxs fd) timeoutSo <;> nofun
    · rw [List.getElem?_eq_none (by rw [List.length_append, List.length_singleton]; exact hgt)] at hd
      cases hd
  have hold : ∀ {d : Nat} {x : IoCall}, s.calls[d]? = some x →
      (s.start fd event timeoutSo hookEnable).calls[d]? = some x := by
    intro d x hd
    exact (List.getElem?_append_left (List.getElem?_eq_some_iff.1 hd).1).trans hd
  refine ⟨fun d x sock hd hs hr => ?_, fun e he => ?_, fun d x hd hw => ?_,
    fun fd' ev d hd => ?_, fun d x hd hx => ?_⟩
  · rcases hcases hd with hd | ⟨hfd, hsock, -, -⟩
    · exact h.owner d x sock hd hs hr
    · rw [hfd]
      exact .inl (hsock.symm.trans hs)
  · obtain ⟨x, hx, hown⟩ := h.performed e he
    exact ⟨x, hold hx, hown⟩
  · rcases hcases hd with hd | ⟨-, -, -, hne⟩
    · exact h.waiting d x hd hw
    · exact absurd hw hne
  · obtain ⟨x, hx, hrest⟩ := h.known fd' ev d hd
    exact ⟨x, hold hx, hrest⟩
  · rcases hcases hd with hd | ⟨-, -, hcl, -⟩
    · exact h.lost d x hd hx
    · cases hcl.symm.trans hx

/-- A new entry of the log. -/
theorem Steady.emit {e : List Performed} (h : Steady s)
    (he : ∀ p ∈ e, ∃ x, s.calls[p.call]? = some x ∧ ∀ sock, x.sock = some sock → p.sock = sock) :
    Steady { s with log := s.log ++ e } := by
  refine ⟨h.owner, fun p hp => ?_, h.waiting, h.known, h.lost⟩
  rcases List.mem_append.1 hp with hp | hp
  · exact h.performed p hp
  · exact he p hp

/-- **A system call is on the socket of its call**, and fails if that was closed while the call
waited. -/
theorem Steady.sysCall (h : Steady s) (hc : s.calls[c]? = some k)
    (hplace : k.place = .direct ∨ k.place = .calling)
    (r : SysResult) : Steady (s.sysCall c k r) := by
  have hin : k.place.isReturned = false := by rcases hplace with hp | hp <;> rw [hp] <;> rfl
  unfold Net.sysCall
  extract_lets r' place
  have hnot : place ≠ .waiting := by
    show (match k.place, r' with
      | .calling, .EINTR => Place.calling
      | .calling, .EAGAIN => Place.registering
      | _, r => Place.returned (.result r)) ≠ Place.waiting
    split <;> nofun
  have hcall : Steady (s.setCall c { k with place }) := by
    refine h.setCall hc rfl rfl rfl rfl (fun _ => hin)
      ⟨fun hp => absurd hp hnot, fun hp => ?_⟩ fun hcl => ?_
    · rcases hplace with hp' | hp' <;> cases hp'.symm.trans hp
    · -- a lost call finds its descriptor closed
      obtain ⟨-, hlost⟩ := h.lost c k hc hcl
      rcases hplace with hp | hp
      · rw [IoCall.Lost, hp] at hlost
        exact hlost.elim
      · rw [IoCall.Lost, hp] at hlost
        have hr : r' = .error EBADF := if_neg (by rw [hlost]; decide)
        have hpl : place = .returned (.result (.error EBADF)) := by
          show (match k.place, r' with
            | .calling, .EINTR => Place.calling
            | .calling, .EAGAIN => Place.registering
            | _, r => Place.returned (.result r)) = _
          rw [hp, hr]
        show IoCall.Lost s { k with place }
        rw [hpl]
        exact rfl
  refine hcall.emit fun p hp => ?_
  obtain ⟨sock', hsock', rfl⟩ := Option.map_eq_some_iff.1 (Option.mem_toList.1 hp)
  refine ⟨_, setCall_self hc, fun sock hs => ?_⟩
  rcases h.owner c k sock hc hs hin with hown | hnone
  · exact Option.some.inj (hsock'.symm.trans hown)
  · cases hsock'.symm.trans hnone

/-- **A descriptor that no call in progress uses is given out.** -/
theorem Steady.openFd (h : Steady s) (hunused : s.Unused fd) : Steady (s.openFd fd) := by
  have hin : ∀ (d : Nat) (x : IoCall), s.calls[d]? = some x → x.sock.isSome = true →
      x.place.isReturned = false →
      (s.openFd fd).sockets x.fd = s.sockets x.fd := by
    intro d x hd hs hr
    refine Function.update_of_ne (fun heq => ?_) _ _
    have hret := hunused x (List.mem_of_getElem? hd) heq hs
    rw [hr] at hret
    cases hret
  refine ⟨fun d x sock hd hs hr => ?_, h.performed, h.waiting, h.known, fun d x hd hx => ?_⟩
  · rw [hin d x hd (by rw [hs]; rfl) hr]
    exact h.owner d x sock hd hs hr
  · obtain ⟨hsome, hlost⟩ := h.lost d x hd hx
    refine ⟨hsome, ?_⟩
    have hsock := hin d x hd hsome
    unfold IoCall.Lost at hlost ⊢
    cases hp : x.place with
    | woken =>
      rw [hp] at hlost hsock
      exact (hsock rfl).trans hlost
    | calling =>
      rw [hp] at hlost hsock
      exact (hsock rfl).trans hlost
    | returned o =>
      rw [hp] at hlost
      exact hlost
    | direct | registering | waiting =>
      rw [hp] at hlost
      exact hlost

/-- **A registration.** -/
theorem Steady.addEvent (h : Steady s) (hc : s.calls[c]? = some k) (hplace : k.place = .registering)
    (hfree : s.registered k.fd k.event = none) (ok : Bool) : Steady (s.addEvent c k ok) := by
  have hin : k.place.isReturned = false := by rw [hplace]; rfl
  have hkept : k.closedWaiting = false := by
    refine Bool.eq_false_iff.2 fun hcl => ?_
    have hlost := (h.lost c k hc hcl).2
    rw [IoCall.Lost, hplace] at hlost
    exact hlost
  unfold Net.addEvent
  split
  · -- the registration is new, and no other call has it
    refine ⟨fun d x sock hd hs hr => ?_,
      fun e he => performed_setCall h hc { k with place := .waiting } rfl he, fun d x hd hw => ?_,
      fun fd ev d hd => ?_, fun d x hd hx => ?_⟩
    · rcases setCall_cases hd with ⟨rfl, rfl⟩ | ⟨-, hd⟩
      · exact h.owner d k sock hc hs hin
      · exact h.owner d x sock hd hs hr
    · refine (update_registered ..).trans ?_
      rcases setCall_cases hd with ⟨rfl, rfl⟩ | ⟨-, hd⟩
      · exact if_pos ⟨rfl, rfl⟩
      · rw [if_neg]
        · exact h.waiting d x hd hw
        · rintro ⟨hfd, hev⟩
          have hx := h.waiting d x hd hw
          rw [hfd, hev, hfree] at hx
          cases hx
    · have hd := (update_registered ..).symm.trans hd
      split at hd
      · rename_i hboth
        obtain rfl := Option.some.inj hd
        exact ⟨_, setCall_self hc, hboth.1.symm, hboth.2.symm, rfl⟩
      · obtain ⟨x, hx, hxfd, hxev, hxw⟩ := h.known fd ev d hd
        refine ⟨x, (setCall_ne fun heq => ?_).trans hx, hxfd, hxev, hxw⟩
        rw [heq] at hx
        obtain rfl := Option.some.inj (hc.symm.trans hx)
        cases hplace.symm.trans hxw
    · rcases setCall_cases hd with ⟨rfl, rfl⟩ | ⟨-, hd⟩
      · cases hkept.symm.trans hx
      · exact h.lost d x hd hx
  · refine h.setCall hc rfl rfl rfl rfl (fun hr => absurd hr nofun)
      ⟨nofun, fun hw => ?_⟩ fun hcl => ?_
    · cases hplace.symm.trans hw
    · cases hkept.symm.trans hcl

/-- **The end of a registration.** -/
theorem Steady.trigger (h : Steady s) (fd : Nat) (event : Event) : Steady (s.trigger fd event) := by
  unfold Net.trigger
  split
  · exact h
  · rename_i c hreg
    obtain ⟨k, hc, rfl, rfl, hplace⟩ := h.known fd event c hreg
    rw [hc]
    show Steady { s.setCall c { k with place := .woken } with
      registered := Function.update s.registered k.fd
        (Function.update (s.registered k.fd) k.event none) }
    have hkept : k.closedWaiting = false := by
      refine Bool.eq_false_iff.2 fun hcl => ?_
      have hlost := (h.lost c k hc hcl).2
      rw [IoCall.Lost, hplace] at hlost
      exact hlost
    refine ⟨fun d x sock hd hs hr => ?_,
      fun e he => performed_setCall h hc { k with place := .woken } rfl he, fun d x hd hw => ?_,
      fun fd ev d hd => ?_, fun d x hd hx => ?_⟩
    · rcases setCall_cases hd with ⟨rfl, rfl⟩ | ⟨-, hd⟩
      · exact h.owner d k sock hc hs (by rw [hplace]; rfl)
      · exact h.owner d x sock hd hs hr
    · rcases setCall_cases hd with ⟨rfl, rfl⟩ | ⟨hne, hd⟩
      · cases hw
      · refine (update_registered ..).trans ?_
        have hx := h.waiting d x hd hw
        rw [if_neg]
        · exact hx
        · rintro ⟨hfd, hev⟩
          rw [hfd, hev, hreg] at hx
          exact hne (Option.some.inj hx).symm
    · have hd := (update_registered ..).symm.trans hd
      split at hd
      · cases hd
      · rename_i hother
        obtain ⟨x, hx, hxfd, hxev, hxw⟩ := h.known fd ev d hd
        refine ⟨x, (setCall_ne fun heq => ?_).trans hx, hxfd, hxev, hxw⟩
        rw [heq] at hx
        obtain rfl := Option.some.inj (hc.symm.trans hx)
        exact hother ⟨hxfd.symm, hxev.symm⟩
    · rcases setCall_cases hd with ⟨rfl, rfl⟩ | ⟨-, hd⟩
      · cases hkept.symm.trans hx
      · exact h.lost d x hd hx

/-- A close leaves a call's descriptor. -/
@[simp] theorem closed_fd (k : IoCall) :
    (s.closed fd k).fd = k.fd := by
  unfold Net.closed; split <;> rfl

/-- A close leaves a call's event. -/
@[simp] theorem closed_event (k : IoCall) :
    (s.closed fd k).event = k.event := by
  unfold Net.closed; split <;> rfl

/-- A close leaves a call's socket. -/
@[simp] theorem closed_sock (k : IoCall) :
    (s.closed fd k).sock = k.sock := by
  unfold Net.closed; split <;> rfl

/-- A close leaves the place of a call. -/
@[simp] theorem closed_place (k : IoCall) :
    (s.closed fd k).place = k.place := by
  unfold Net.closed; split <;> rfl

/-- A call that `close_f` marks waits on the descriptor or is scheduled. -/
theorem closedWaiting_closed (hcl : (s.closed fd k).closedWaiting = true) :
    k.closedWaiting = true ∨ (k.place = .waiting ∨ k.place = .woken) ∧ k.fd = fd ∧
      k.sock.isSome = true := by
  unfold Net.closed at hcl
  split at hcl
  · rename_i hmark
    exact .inr ⟨hmark.1, hmark.2.1, hmark.2.2.1⟩
  · exact .inl hcl

/-- A call behind a close was a call before it. -/
theorem closeF_calls {d : Nat} {x : IoCall} (hd : (s.closeF fd).calls[d]? = some x) :
    ∃ k, s.calls[d]? = some k ∧ x = s.closed fd k := by
  have hd : (s.calls.map (s.closed fd))[d]? = some x := hd
  rw [List.getElem?_map] at hd
  obtain ⟨k, hk, rfl⟩ := Option.map_eq_some_iff.1 hd
  exact ⟨k, hk, rfl⟩

/-- A call before a close is one behind it. -/
theorem closeF_calls_of {d : Nat} (hd : s.calls[d]? = some k) :
    (s.closeF fd).calls[d]? = some (s.closed fd k) := by
  show (s.calls.map (s.closed fd))[d]? = _
  rw [List.getElem?_map, hd]
  rfl

/-- What is not open stays so when a descriptor is closed. -/
theorem closeF_sockets_none {fd' : Nat} (h : s.sockets fd' = none) :
    (s.closeF fd).sockets fd' = none := by
  show Function.update s.sockets fd none fd' = none
  by_cases heq : fd' = fd
  · rw [heq, Function.update_self]
  · rw [Function.update_of_ne heq, h]

/-- **A descriptor with no registration is closed.** -/
theorem Steady.closeF (h : Steady s) (hfree : s.Free fd) : Steady (s.closeF fd) := by
  have hnone : ∀ event, s.registered fd event = none := by
    intro event
    cases event with
    | read => exact hfree.1
    | write => exact hfree.2
  refine ⟨fun d x sock hd hs hr => ?_, fun e he => ?_, fun d x hd hw => ?_,
    fun fd' ev d hd => ?_, fun d x hd hx => ?_⟩
  · obtain ⟨k, hk, rfl⟩ := closeF_calls hd
    rw [closed_sock] at hs
    rw [closed_place] at hr
    rw [closed_fd]
    rcases h.owner d k sock hk hs hr with hown | hshut
    · by_cases heq : k.fd = fd
      · exact .inr (by rw [heq]; exact Function.update_self ..)
      · exact .inl ((Function.update_of_ne heq ..).trans hown)
    · exact .inr (closeF_sockets_none hshut)
  · obtain ⟨k, hk, hown⟩ := h.performed e he
    refine ⟨_, closeF_calls_of hk, fun sock hs => hown sock ?_⟩
    rwa [closed_sock] at hs
  · obtain ⟨k, hk, rfl⟩ := closeF_calls hd
    rw [closed_place] at hw
    rw [closed_fd, closed_event]
    exact h.waiting d k hk hw
  · obtain ⟨k, hk, hfd, hev, hw⟩ := h.known fd' ev d hd
    exact ⟨_, closeF_calls_of hk, by rw [closed_fd, hfd], by rw [closed_event, hev], by rw [closed_place, hw]⟩
  · obtain ⟨k, hk, rfl⟩ := closeF_calls hd
    rw [closed_sock]
    unfold IoCall.Lost
    rw [closed_place, closed_fd]
    rcases closedWaiting_closed hx with hcl | ⟨hp, hfd, hsome⟩
    · obtain ⟨hsome, hlost⟩ := h.lost d k hk hcl
      refine ⟨hsome, ?_⟩
      unfold IoCall.Lost at hlost
      cases hp : k.place with
      | woken | calling =>
        rw [hp] at hlost
        exact closeF_sockets_none hlost
      | returned o =>
        rw [hp] at hlost
        exact hlost
      | direct | registering | waiting =>
        rw [hp] at hlost
        exact hlost
    · refine ⟨hsome, ?_⟩
      rcases hp with hp | hp
      · -- a call that waits is registered
        have hreg := h.waiting d k hk hp
        rw [hfd, hnone] at hreg
        cases hreg
      · rw [hp, hfd]
        exact Function.update_self ..

/-- **What an orderly step keeps.** -/
theorem Steady.next (h : Steady s) (hord : move.Orderly s) (hn : s.next move = some t) :
    Steady t := by
  cases move with
  | start fd event timeoutSo hookEnable =>
    obtain rfl := Option.some.inj hn
    exact h.start event timeoutSo hookEnable
  | sysCall c r =>
    simp only [Net.next] at hn
    split at hn
    · rename_i k hc
      split at hn
      · rename_i hplace
        obtain rfl := Option.some.inj hn
        exact h.sysCall hc hplace r
      · cases hn
    · cases hn
  | accept c fd =>
    simp only [Net.next] at hn
    split at hn
    · rename_i k hc
      split at hn
      · rename_i hguard
        obtain rfl := Option.some.inj hn
        refine (h.sysCall hc hguard.1 _).openFd fun x hx hfd hs => ?_
        -- the calls in progress after the system call were so before it
        obtain ⟨d, hd⟩ := List.mem_iff_getElem?.1 hx
        rcases setCall_cases (s := s) hd with ⟨-, rfl⟩ | ⟨-, hd⟩
        · have hret := hord k (List.mem_of_getElem? hc) hfd hs
          rcases hguard.1 with hp | hp <;> rw [hp] at hret <;> cases hret
        · exact hord x (List.mem_of_getElem? hd) hfd hs
      · cases hn
    · cases hn
  | addEvent c ok =>
    simp only [Net.next] at hn
    split at hn
    · rename_i k hc
      split at hn
      · rename_i hguard
        obtain rfl := Option.some.inj hn
        exact h.addEvent hc hguard.1 hguard.2 ok
      · cases hn
    · cases hn
  | trigger fd event =>
    obtain rfl := Option.some.inj hn
    exact h.trigger fd event
  | expire c =>
    simp only [Net.next] at hn
    split at hn
    · rename_i k hc
      split at hn
      · cases hn
      · obtain rfl := Option.some.inj hn
        exact h.setCall hc rfl rfl rfl rfl id Iff.rfl fun hcl => (h.lost c k hc hcl).2
    · cases hn
  | resume c =>
    simp only [Net.next] at hn
    split at hn
    · rename_i k hc
      split at hn
      · rename_i hplace
        obtain rfl := Option.some.inj hn
        refine h.setCall hc rfl rfl rfl rfl (fun _ => by rw [hplace]; rfl)
          ⟨fun hw => ?_, fun hw => ?_⟩ fun hcl => ?_
        · revert hw
          show (if k.cancelled then Place.returned .timedOut else .calling) = .waiting → _
          split <;> nofun
        · cases hplace.symm.trans hw
        · have hlost := (h.lost c k hc hcl).2
          rw [IoCall.Lost, hplace] at hlost
          show IoCall.Lost s { k with place := if k.cancelled then .returned .timedOut else .calling }
          cases k.cancelled with
          | true => exact rfl
          | false => exact hlost
      · cases hn
    · cases hn
  | socket fd =>
    simp only [Net.next] at hn
    split at hn
    · obtain rfl := Option.some.inj hn
      exact h.openFd hord
    · cases hn
  | create fd stat =>
    obtain rfl := Option.some.inj hn
    split
    · exact h
    · exact ⟨h.owner, h.performed, h.waiting, h.known, h.lost⟩
  | close fd hookEnable =>
    obtain rfl := Option.some.inj hn
    exact ⟨h.owner, h.performed, h.waiting, h.known, h.lost⟩
  | cancelAll i ok =>
    simp only [Net.next] at hn
    split at hn
    · rename_i fd _
      obtain rfl := Option.some.inj hn
      have hboth : Steady (if ok then (s.trigger fd .read).trigger fd .write else s) := by
        split
        · exact (h.trigger fd .read).trigger fd .write
        · exact h
      exact ⟨hboth.owner, hboth.performed, hboth.waiting, hboth.known, hboth.lost⟩
    · cases hn
  | del i =>
    simp only [Net.next] at hn
    split at hn
    · obtain rfl := Option.some.inj hn
      exact ⟨h.owner, h.performed, h.waiting, h.known, h.lost⟩
    · cases hn
  | closeF i =>
    simp only [Net.next] at hn
    split at hn
    · rename_i fd hi
      obtain rfl := Option.some.inj hn
      have hclosed := h.closeF (hord (fd, .closeF) hi)
      exact ⟨hclosed.owner, hclosed.performed, hclosed.waiting, hclosed.known, hclosed.lost⟩
    · cases hn

/-- A call that has returned takes no step of its own. -/
theorem finish_returned {o : Outcome} (hc : s.calls[c]? = some k) (hp : k.place = .returned o)
    (r : SysResult) :
    s.finish c r = s := by
  have hresume : s.next (.resume c) = none := by simp only [Net.next, hc, hp]; rfl
  have hsys : s.next (.sysCall c r) = none := by simp only [Net.next, hc, hp]; rfl
  simp only [Net.finish, hresume, hsys, Option.getD_none]

/-- A call on a descriptor that is not open gets `EBADF`. -/
theorem sysCall_closed (hc : s.calls[c]? = some k) (hp : k.place = .calling)
    (hfd : s.sockets k.fd = none)
    (r : SysResult) : ∃ t, s.next (.sysCall c r) = some t ∧
      t.calls[c]? = some { k with place := .returned (.result (.error EBADF)) } := by
  refine ⟨s.sysCall c k r, ?_, ?_⟩
  · simp only [Net.next, hc]
    exact if_pos (.inr hp)
  · simp only [Net.sysCall, hfd, hp]
    exact setCall_self hc

/-- **A call whose socket was closed while it waited returns an error.** -/
theorem Steady.fails (h : Steady s) (hc : s.calls[c]? = some k) (hcl : k.closedWaiting = true)
    (r : SysResult) :
    ∃ k' o, (s.finish c r).calls[c]? = some k' ∧ k'.place = .returned o ∧ isError o = true := by
  have hlost := (h.lost c k hc hcl).2
  unfold IoCall.Lost at hlost
  cases hp : k.place with
  | returned o =>
    rw [hp] at hlost
    rw [finish_returned hc hp]
    exact ⟨k, o, hc, hp, hlost⟩
  | calling =>
    rw [hp] at hlost
    have hresume : s.next (.resume c) = none := by simp only [Net.next, hc, hp]; rfl
    obtain ⟨t, ht, hk⟩ := sysCall_closed hc hp hlost r
    simp only [Net.finish, hresume, Option.getD_none, ht, Option.getD_some]
    exact ⟨_, _, hk, rfl, rfl⟩
  | woken =>
    rw [hp] at hlost
    let k' : IoCall := { k with place := if k.cancelled then .returned .timedOut else .calling }
    have hresume : s.next (.resume c) = some (s.setCall c k') := by
      simp only [Net.next, hc]
      exact if_pos hp
    have hk' : (s.setCall c k').calls[c]? = some k' := setCall_self hc
    cases hcan : k.cancelled with
    | true =>
      have hp' : k'.place = .returned .timedOut := if_pos hcan
      have hsys : (s.setCall c k').next (.sysCall c r) = none := by
        simp only [Net.next, hk', hp']; rfl
      simp only [Net.finish, hresume, Option.getD_some, hsys, Option.getD_none]
      exact ⟨k', _, hk', hp', rfl⟩
    | false =>
      have hp' : k'.place = .calling := if_neg (by rw [hcan]; nofun)
      obtain ⟨t, ht, hk⟩ := sysCall_closed hk' hp' hlost r
      simp only [Net.finish, hresume, Option.getD_some, ht]
      exact ⟨_, _, hk, rfl, rfl⟩
  | direct | registering | waiting =>
    rw [hp] at hlost
    exact hlost.elim

/-- Without a socket nothing can be mixed up. -/
theorem Steady.new : Steady Net.new := by
  refine ⟨fun c k sock hc => ?_, fun e he => ?_, fun c k hc => ?_,
    fun fd ev c hc => ?_, fun c k hc => ?_⟩ <;> contradiction

end

/-- **A hooked call keeps to its socket.**  In every run in which no descriptor is given out again
while a call on it is in progress, and none is closed while a call is registered on it, a call that
began on a socket does its system calls on no other, and one whose socket is closed while it waits
returns an error. -/
theorem calls_keep_socket {moves : List Move} {s : Net}
    (h : system.Run (fun s move => move.Orderly s) moves s) :
    s.OwnSockets := by
  have hsteady : Steady s := h.invariant
    (I := fun _ s => Steady s) Steady.new fun _ _ _ _ hs hord hn => hs.next hord hn
  refine ⟨fun e he k hk sock hs => ?_, fun c k hc hcl r => hsteady.fails hc hcl r⟩
  obtain ⟨k', hk', hown⟩ := hsteady.performed e he
  obtain rfl := Option.some.inj (hk.symm.trans hk')
  exact hown sock hs

/-- Whether a descriptor is unused can be computed. -/
instance (s : Net) (fd : Nat) : Decidable (s.Unused fd) :=
  inferInstanceAs (Decidable
    (∀ k ∈ s.calls, k.fd = fd → k.sock.isSome = true → k.place.isReturned = true))

/-- Whether a descriptor is free can be computed. -/
instance (s : Net) (fd : Nat) : Decidable (s.Free fd) :=
  inferInstanceAs (Decidable (s.registered fd .read = none ∧ s.registered fd .write = none))

/-- Whether a move is in order can be computed. -/
instance (s : Net) : (move : Move) → Decidable (move.Orderly s)
  | .accept _ fd => inferInstanceAs (Decidable (s.Unused fd))
  | .socket fd => inferInstanceAs (Decidable (s.Unused fd))
  | .closeF i => inferInstanceAs (Decidable (∀ p ∈ s.closers[i]?, s.Free p.1))
  | .start .. => isTrue trivial
  | .sysCall .. => isTrue trivial
  | .addEvent .. => isTrue trivial
  | .trigger .. => isTrue trivial
  | .expire _ => isTrue trivial
  | .resume _ => isTrue trivial
  | .create .. => isTrue trivial
  | .close .. => isTrue trivial
  | .cancelAll .. => isTrue trivial
  | .del _ => isTrue trivial

/-- A call waits on a socket that is closed, and tries again before the descriptor is given out. -/
def closedWhileWaiting : List Move :=
  [.socket 5, .create 5 (some true), .start 5 .read (-1) true, .sysCall 0 .EAGAIN,
    .addEvent 0 true, .close 5 true,
    .cancelAll 0 true, .del 0, .closeF 0, .resume 0, .sysCall 0 (.ok 1)]

/-- The read of the closed socket fails with `EBADF`. -/
theorem calls_keep_socket_closedWhileWaiting :
    ∃ s, system.Run (fun s move => move.Orderly s) closedWhileWaiting s ∧
    s.calls = [⟨5, .read, some 0, .returned (.result (.error EBADF)), false, true⟩] ∧
      s.OwnSockets := by
  have hsome : (system.exec (fun s move => decide (move.Orderly s)) system.init
      closedWhileWaiting).isSome = true := by
    decide
  obtain ⟨s, hs⟩ := Option.isSome_iff_exists.1 hsome
  have hend : (system.exec (fun s move => decide (move.Orderly s)) system.init
      closedWhileWaiting).all (fun s =>
      decide (s.calls = [⟨5, .read, some 0, .returned (.result (.error EBADF)), false,
        true⟩])) = true := by
    decide
  rw [hs, Option.all_some] at hend
  have hrun : system.Run (fun s move => move.Orderly s) closedWhileWaiting s :=
    System.run_of_exec (fun _ _ => of_decide_eq_true) hs
  exact ⟨s, hrun, of_decide_eq_true hend, calls_keep_socket hrun⟩

/-- The same, but the descriptor is given to a new connection before the call that was woken tries
again. -/
def reopened : List Move :=
  [.socket 5, .create 5 (some true), .start 5 .read (-1) true, .sysCall 0 .EAGAIN,
    .addEvent 0 true, .close 5 true,
    .cancelAll 0 true, .del 0, .closeF 0, .socket 5, .resume 0, .sysCall 0 (.ok 1)]

/-- **A read that began on one socket takes the data of another** that was opened under the same
descriptor, and returns them. -/
theorem reads_other_socket : ∃ s, system.Run anyStep reopened s ∧
    s.calls = [⟨5, .read, some 0, .returned (.result (.ok 1)), false, true⟩] ∧
      s.log = [⟨0, 0⟩, ⟨0, 1⟩] ∧
    ¬ s.OwnSockets := by
  have hsome : (system.exec (fun _ _ => true) system.init reopened).isSome = true := by decide
  obtain ⟨s, hs⟩ := Option.isSome_iff_exists.1 hsome
  have hend : (system.exec (fun _ _ => true) system.init reopened).all (fun s => decide (
      s.calls = [⟨5, .read, some 0, .returned (.result (.ok 1)), false, true⟩] ∧
        s.log = [⟨0, 0⟩, ⟨0, 1⟩])) = true := by
    decide
  rw [hs, Option.all_some] at hend
  obtain ⟨hcalls, hlog⟩ := of_decide_eq_true hend
  refine ⟨s, System.run_of_exec (fun _ _ _ => trivial) hs, hcalls, hlog, fun hown => ?_⟩
  have h := hown.performed ⟨0, 1⟩ (by rw [hlog]; decide) _ (by rw [hcalls]; rfl) 0 rfl
  cases h

end Sockets
end Wuchat
