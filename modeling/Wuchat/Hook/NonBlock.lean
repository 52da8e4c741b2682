/-
# Non-blocking sockets

`hook.cpp`: the contexts keep the kernel's descriptors of sockets non-blocking, for `do_io` to wait
in the scheduler and not in the system call, and remember what the user asked for.  `fcntl` with
`F_SETFL` keeps the kernel's flag when it passes the flags on, and `F_GETFL` shows the user's.
`ioctl` with `FIONBIO` remembers what the user asked for, and passes it on as it is.

So the user always sees the flags as they were set, and the kernel's flag is there in every state of
a run exactly when no `FIONBIO` turns it off (`nonBlock_iff`).
-/

import Wuchat.Hook.FdManager

namespace Wuchat
namespace NonBlock

open Foundation
open Fds (FdContext)

/-- `O_NONBLOCK`. -/
def O_NONBLOCK : BitVec 32 := 0x800

/-- The flags `F_SETFL` can change: `O_APPEND`, `O_NONBLOCK`, `O_ASYNC`, `O_DIRECT` and `O_NOATIME`. -/
def SETFL_MASK : BitVec 32 := 0x46c00

/-- The flags of a descriptor after `fcntl_f(fd, F_SETFL, arg)`. -/
def setFlF (flags arg : BitVec 32) : BitVec 32 := (arg &&& SETFL_MASK) ||| (flags &&& ~~~SETFL_MASK)

/-- The flags of a descriptor after `ioctl_f(fd, FIONBIO, &arg)`. -/
def fionbioF (flags arg : BitVec 32) : BitVec 32 :=
  if arg ≠ 0 then flags ||| O_NONBLOCK else flags &&& ~~~O_NONBLOCK

/-- The flags of a descriptor after `FdContext::init`, for a socket. -/
def initFlags (flags : BitVec 32) : BitVec 32 :=
  if flags &&& O_NONBLOCK = 0 then setFlF flags (flags ||| O_NONBLOCK) else flags

/-- The hooked `fcntl(fd, F_SETFL, arg)`: the context, and what is passed on. -/
def fcntlSetFl (ctx : Option FdContext) (arg : BitVec 32) : Option FdContext × BitVec 32 :=
  match ctx with
  | none => (none, arg)
  | some ctx =>
    if ctx.isClosed || !ctx.isSocket then (some ctx, arg)
    else
      let ctx := ctx.setUserNonBlock (arg &&& O_NONBLOCK ≠ 0)
      (some ctx, if ctx.isSysNonBlock then arg ||| O_NONBLOCK else arg &&& ~~~O_NONBLOCK)

/-- The hooked `fcntl(fd, F_GETFL)`, for the flags the kernel has. -/
def fcntlGetFl (ctx : Option FdContext) (flags : BitVec 32) : BitVec 32 :=
  match ctx with
  | none => flags
  | some ctx =>
    if ctx.isClosed || !ctx.isSocket then flags
    else if ctx.isUserNonBlock then flags ||| O_NONBLOCK else flags &&& ~~~O_NONBLOCK

/-- The hooked `ioctl(fd, FIONBIO, &arg)`: the context, and what is passed on. -/
def ioctlFionbio (ctx : Option FdContext) (arg : BitVec 32) : Option FdContext × BitVec 32 :=
  match ctx with
  | none => (none, arg)
  | some ctx =>
    if ctx.isClosed || !ctx.isSocket then (some ctx, arg)
    else (some (ctx.setUserNonBlock (arg ≠ 0)), arg)

/-- A descriptor with its context and its flags in the kernel; and, of the calls so far, whether the last
request asked for `O_NONBLOCK`, and the other flags as they were set. -/
structure Descriptor where
  ctx : Option FdContext
  flags : BitVec 32
  asked : Bool
  last : BitVec 32
  deriving DecidableEq, Repr

/-- The calls, `F_SETFL` with whether the kernel accepts the flags. -/
inductive Move
  | setFl (arg : BitVec 32) (ok : Bool)
  | getFl
  | fionbio (arg : BitVec 32)
  deriving DecidableEq, Repr

/-- The state after a call. -/
def Descriptor.next (s : Descriptor) : Move → Descriptor
  | .setFl arg ok =>
    let (ctx, passed) := fcntlSetFl s.ctx arg
    { ctx := ctx
      flags := if ok then setFlF s.flags passed else s.flags
      asked := arg &&& O_NONBLOCK ≠ 0
      last := if ok then setFlF s.last arg &&& ~~~O_NONBLOCK else s.last }
  | .getFl => s
  | .fionbio arg =>
    let (ctx, passed) := ioctlFionbio s.ctx arg
    { s with ctx := ctx, flags := fionbioF s.flags passed, asked := arg ≠ 0 }

/-- A new socket, with the flags it has from the kernel. -/
def system (fd : Nat) (flags : BitVec 32) : System Descriptor Move where
  init := ⟨some (.new fd (some true)), initFlags flags, false, flags &&& ~~~O_NONBLOCK⟩
  next s move := some (s.next move)

/-- **The user's view is right and the kernel does not block**: `F_GETFL` reports `O_NONBLOCK` as it was
asked for and the other flags as they were set, and the descriptor is `O_NONBLOCK`. -/
structure Right (s : Descriptor) : Prop where
  asked : fcntlGetFl s.ctx s.flags &&& O_NONBLOCK ≠ 0 ↔ s.asked = true
  others : fcntlGetFl s.ctx s.flags &&& ~~~O_NONBLOCK = s.last
  kernel : s.flags &&& O_NONBLOCK ≠ 0

/-- The call does not turn the kernel's flag off. -/
def Move.Keeps (_ : Descriptor) (move : Move) : Prop := ∀ arg, move = .fionbio arg → arg ≠ 0

/-! ### Flags -/

/-- The flag is in what it was added to. -/
theorem with_and (flags : BitVec 32) : (flags ||| O_NONBLOCK) &&& O_NONBLOCK = O_NONBLOCK := by
  ext i hi
  simp only [BitVec.getElem_and, BitVec.getElem_or]
  grind

/-- The flag is not in what it was taken from. -/
theorem without_and (flags : BitVec 32) : flags &&& ~~~O_NONBLOCK &&& O_NONBLOCK = 0 := by
  rw [BitVec.and_assoc, BitVec.and_comm (~~~O_NONBLOCK)]
  simp

/-- Added and taken away it leaves the others. -/
theorem with_andNot (flags : BitVec 32) : (flags ||| O_NONBLOCK) &&& ~~~O_NONBLOCK = flags &&& ~~~O_NONBLOCK := by
  ext i hi
  simp only [BitVec.getElem_and, BitVec.getElem_or, BitVec.getElem_not]
  grind

/-- Taken away twice is taken away once. -/
theorem without_andNot (flags : BitVec 32) :
    flags &&& ~~~O_NONBLOCK &&& ~~~O_NONBLOCK = flags &&& ~~~O_NONBLOCK := by
  rw [BitVec.and_assoc, BitVec.and_self]

/-- Taken away and added it is added. -/
theorem without_or (flags : BitVec 32) : flags &&& ~~~O_NONBLOCK ||| O_NONBLOCK = flags ||| O_NONBLOCK := by
  ext i hi
  simp only [BitVec.getElem_and, BitVec.getElem_or, BitVec.getElem_not]
  grind

/-- `F_SETFL` with `O_NONBLOCK` added sets the other flags as they are asked for. -/
theorem setFlF_or (last arg : BitVec 32) :
    setFlF (last ||| O_NONBLOCK) (arg ||| O_NONBLOCK) = setFlF last arg &&& ~~~O_NONBLOCK ||| O_NONBLOCK := by
  have hmask : SETFL_MASK &&& O_NONBLOCK = O_NONBLOCK := by decide
  ext i hi
  have hbit := congrArg (fun x : BitVec 32 => x[i]) hmask
  simp only [setFlF, BitVec.getElem_and, BitVec.getElem_or, BitVec.getElem_not] at hbit ⊢
  grind

/-- The flag is bit 11. -/
theorem getElem_nonblock : ∀ i : Fin 32, O_NONBLOCK[i] = decide (i.val = 11) := by decide

/-- A new context's socket is set non-blocking. -/
theorem initFlags_eq (flags : BitVec 32) : initFlags flags = flags ||| O_NONBLOCK := by
  unfold initFlags
  split
  · have hmask : SETFL_MASK &&& O_NONBLOCK = O_NONBLOCK := by decide
    ext i hi
    have hbit := congrArg (fun x : BitVec 32 => x[i]) hmask
    simp only [setFlF, BitVec.getElem_and, BitVec.getElem_or, BitVec.getElem_not] at hbit ⊢
    grind
  · rename_i hset
    -- the flag is one bit, which is set already
    have heleven : flags[11] = true := by
      refine eq_true_of_ne_false fun hclear => hset ?_
      ext i hi
      rw [BitVec.getElem_and, show O_NONBLOCK[i] = decide (i = 11) from getElem_nonblock ⟨i, hi⟩]
      by_cases hi11 : i = 11
      · subst hi11
        simp [hclear]
      · simp [hi11]
    ext i hi
    rw [BitVec.getElem_or, show O_NONBLOCK[i] = decide (i = 11) from getElem_nonblock ⟨i, hi⟩]
    by_cases hi11 : i = 11
    · subst hi11
      rw [heleven]
      rfl
    · simp [hi11]

/-! ### The user's view -/

/-- **What holds of a socket**: its context has what was asked for, and the kernel has the flags that were
set and `O_NONBLOCK`. -/
structure Kept (s : Descriptor) : Prop where
  ctx : ∃ c, s.ctx = some c ∧ c.isClosed = false ∧ c.isSocket = true ∧ c.isSysNonBlock = true ∧
    c.isUserNonBlock = s.asked
  flags : s.flags = s.last ||| O_NONBLOCK
  last : s.last &&& ~~~O_NONBLOCK = s.last

variable {s : Descriptor}

/-- Such a socket answers `fcntl` and `ioctl` rightly. -/
theorem Kept.right (h : Kept s) : Right s := by
  obtain ⟨c, hctx, hopen, hsocket, -, huser⟩ := h.ctx
  have hget : fcntlGetFl s.ctx s.flags = if s.asked then s.last ||| O_NONBLOCK else s.last := by
    have hwithout : (s.last ||| O_NONBLOCK) &&& ~~~O_NONBLOCK = s.last := (with_andNot s.last).trans h.last
    simp [fcntlGetFl, hctx, hopen, hsocket, huser, h.flags, hwithout, BitVec.or_assoc]
  have hnone : s.last &&& O_NONBLOCK = 0 := by
    rw [← h.last]
    exact without_and s.last
  rw [← h.flags] at hget
  refine ⟨?_, ?_, ?_⟩
  · rw [hget]
    cases s.asked with
    | true =>
      rw [if_pos rfl, h.flags, with_and]
      exact iff_of_true (by decide) rfl
    | false => simp [hnone]
  · rw [hget]
    cases s.asked with
    | true => exact (congrArg (· &&& ~~~O_NONBLOCK) h.flags).trans ((with_andNot s.last).trans h.last)
    | false => exact h.last
  · rw [h.flags, with_and]
    decide

/-- A move that keeps `O_NONBLOCK` keeps the rest. -/
theorem Kept.next (h : Kept s) {move : Move} (hkeeps : move.Keeps s) : Kept (s.next move) := by
  obtain ⟨c, hctx, hopen, hsocket, hsys, huser⟩ := h.ctx
  cases move with
  | setFl arg ok =>
    have hcall : fcntlSetFl s.ctx arg =
        (some (c.setUserNonBlock (arg &&& O_NONBLOCK ≠ 0)), arg ||| O_NONBLOCK) := by
      simp [fcntlSetFl, hctx, hopen, hsocket, hsys, FdContext.setUserNonBlock]
    have hctx' : ∃ c', (s.next (.setFl arg ok)).ctx = some c' ∧ c'.isClosed = false ∧ c'.isSocket = true ∧
        c'.isSysNonBlock = true ∧ c'.isUserNonBlock = (s.next (.setFl arg ok)).asked := by
      simp only [Descriptor.next, hcall]
      exact ⟨_, rfl, hopen, hsocket, hsys, rfl⟩
    refine ⟨hctx', ?_, ?_⟩
    · simp only [Descriptor.next, hcall]
      cases ok with
      | true => rw [if_pos rfl, if_pos rfl, h.flags, setFlF_or]
      | false => exact h.flags
    · simp only [Descriptor.next]
      cases ok with
      | true => exact without_andNot _
      | false => exact h.last
  | getFl => exact h
  | fionbio arg =>
    have hcall : ioctlFionbio s.ctx arg = (some (c.setUserNonBlock (arg ≠ 0)), arg) := by
      simp [ioctlFionbio, hctx, hopen, hsocket]
    have hctx' : ∃ c', (s.next (.fionbio arg)).ctx = some c' ∧ c'.isClosed = false ∧ c'.isSocket = true ∧
        c'.isSysNonBlock = true ∧ c'.isUserNonBlock = (s.next (.fionbio arg)).asked := by
      simp only [Descriptor.next, hcall]
      exact ⟨_, rfl, hopen, hsocket, hsys, rfl⟩
    refine ⟨hctx', ?_, h.last⟩
    simp only [Descriptor.next, hcall, fionbioF]
    rw [if_pos (hkeeps arg rfl), h.flags, BitVec.or_assoc, BitVec.or_self]

/-- A `FIONBIO` with 0 leaves the kernel's descriptor blocking. -/
theorem not_right_of_fionbio (h : Kept s) : ¬ Right (s.next (.fionbio 0)) := by
  obtain ⟨c, hctx, hopen, hsocket, -, -⟩ := h.ctx
  intro hright
  refine hright.kernel ?_
  have hcall : ioctlFionbio s.ctx 0 = (some (c.setUserNonBlock false), 0) := by
    simp [ioctlFionbio, hctx, hopen, hsocket]
  simp only [Descriptor.next, hcall, fionbioF]
  exact without_and s.flags

/-- It holds of a new context. -/
theorem kept_init (fd : Nat) (flags : BitVec 32) : Kept (system fd flags).init := by
  refine ⟨⟨_, rfl, rfl, rfl, rfl, rfl⟩, ?_, ?_⟩
  · exact (initFlags_eq flags).trans (without_or flags).symm
  · exact without_andNot flags

/-- **The flags are right exactly without a `FIONBIO` that turns the flag off.**  In every state of a run, the
user sees `O_NONBLOCK` as the last request asked for it and the other flags as they were set, and the
kernel's descriptor is non-blocking, if and only if no call of the run is `ioctl(fd, FIONBIO)` with 0. -/
theorem nonBlock_iff (fd : Nat) (flags : BitVec 32) (moves : List Move) (s : Descriptor)
    (h : (system fd flags).Run anyStep moves s) :
    (∀ moves' s', moves' <+: moves → (system fd flags).Run anyStep moves' s' → Right s') ↔
      (system fd flags).Run (fun s move => move.Keeps s) moves s := by
  have hkept : ∀ moves s, (system fd flags).Run (fun s move => move.Keeps s) moves s → Kept s := by
    intro moves s hrun
    refine hrun.invariant (I := fun _ s => Kept s) (kept_init fd flags) ?_
    intro _ s move t hs hkeeps hnext
    obtain rfl := Option.some.inj hnext
    exact hs.next hkeeps
  refine h.always_iff (fun moves s hrun => (hkept moves s hrun).right) ?_
  intro moves s move t hrun hnot hnext
  obtain rfl := Option.some.inj hnext
  have hoff : move = .fionbio 0 := by
    unfold Move.Keeps at hnot
    grind
  rw [hoff]
  exact not_right_of_fionbio (hkept moves s hrun)

/-- A socket that was made readable and writable; it is set to append, asked to be non-blocking, and no more. -/
def thereAndBack : List Move := [.setFl 0x402 true, .fionbio 1, .getFl, .setFl 0x402 true]

/-- The statement at a socket set blocking and back. -/
theorem nonBlock_iff_thereAndBack : ∃ s, (system 3 0x2).Run anyStep thereAndBack s ∧ Right s ∧
    fcntlGetFl s.ctx s.flags = 0x402 ∧ s.flags = 0xc02 := by
  have hexec : (system 3 0x2).exec (fun _ move => decide (move ≠ .fionbio 0)) (system 3 0x2).init thereAndBack =
      some ⟨some (.new 3 (some true)), 0xc02, false, 0x402⟩ := by decide
  have hkeeps : (system 3 0x2).Run (fun s move => move.Keeps s) thereAndBack
      ⟨some (.new 3 (some true)), 0xc02, false, 0x402⟩ := by
    refine System.run_of_exec (fun s move hg => ?_) hexec
    rintro arg rfl rfl
    exact of_decide_eq_true hg rfl
  have hrun : (system 3 0x2).Run anyStep thereAndBack ⟨some (.new 3 (some true)), 0xc02, false, 0x402⟩ :=
    hkeeps.mono fun _ _ _ => trivial
  exact ⟨_, hrun, (nonBlock_iff 3 0x2 thereAndBack _ hrun).mpr hkeeps _ _ List.prefix_rfl hrun, by decide, rfl⟩

/-- **A user who turns `FIONBIO` off blocks the thread**: the descriptor in the kernel is blocking then. -/
theorem blocking_after_fionbio : ∃ s, (system 3 0x2).Run anyStep [.fionbio 0] s ∧ s.flags = 0x2 ∧
    (∃ c, s.ctx = some c ∧ c.isSysNonBlock = true ∧ c.isUserNonBlock = false) ∧ ¬ Right s := by
  refine ⟨_, System.Run.start.step trivial rfl, by decide, ⟨_, rfl, rfl, rfl⟩, fun hright => ?_⟩
  exact hright.kernel (by decide)

end NonBlock
end Wuchat
