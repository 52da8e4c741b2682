/-
# What `readFixSize` and `writeFixSize` promise

The loops of `streams/stream.cpp` over the answers of the underlying `read` or `write`, call by
call (`fixSizeLoop`); the two loops are the same text.  `offset`, `left` and `len` are
`size_t`, and so is the `-1` of an error.

The promise (`FixSizeContract`): the loop ends at the first `-1` or `0`, stays inside the
buffer, returns the length exactly when the counts add up to it, and otherwise returns
something that `<= 0` recognises.  It is kept exactly when no `-1` comes before the counts
add up or the stream is closed (`fixSizeContract_iff`).

`readLoop` and `writeLoop`, which take their answers from a link, are this loop
(`readLoop_does`, `writeLoop_does`).
-/

import Mathlib.Algebra.GroupWithZero.Nat
import Wuchat.Streams.Stream

namespace Wuchat
namespace Streams

open Foundation

/-- The answer as a `size_t`. -/
def Io.toSize : Io → Nat
  | .count k => k
  | .fail => sizeMod - 1

/-- One call of `read` or `write`: where in the buffer, how many bytes are asked for, and the answer. -/
structure IoCall where
  offset : Nat
  asked : Nat
  answer : Io
  deriving DecidableEq, Repr

/-- The calls a loop made, and what it returned; `none` while it waits for another answer. -/
structure FixSizeRun where
  calls : List IoCall
  ret : Option Nat
  deriving DecidableEq, Repr

/-- The calls of a loop after other calls. -/
def FixSizeRun.after (calls : List IoCall) (r : FixSizeRun) : FixSizeRun := ⟨calls ++ r.calls, r.ret⟩

/-- The loop of `readFixSize(buffer, length)` and `writeFixSize(buffer, length)`. -/
def fixSizeLoop (length : Nat) : List Io → Nat → Nat → FixSizeRun
  | [], _, left => if left = 0 then ⟨[], some length⟩ else ⟨[], none⟩
  | answer :: answers, offset, left =>
    if left = 0 then ⟨[], some length⟩
    else
      let len := answer.toSize
      if len = 0 then ⟨[⟨offset, left, answer⟩], some len⟩
      else
        (fixSizeLoop length answers ((offset + len) % sizeMod) ((left + (sizeMod - len)) % sizeMod)).after
          [⟨offset, left, answer⟩]

/-- `readFixSize(buffer, length)` and `writeFixSize(buffer, length)`, over the answers of the calls. -/
def fixSizeRun (length : Nat) (answers : List Io) : FixSizeRun := fixSizeLoop length answers 0 length

/-- No answer counts more than was asked for. -/
def FixSizeRun.Answered (r : FixSizeRun) : Prop := ∀ c ∈ r.calls, ∀ k, c.answer = .count k → k ≤ c.asked

/-- Counts that add up, with no `-1` and no `0` before. -/
def AddsUp (length : Nat) (answers : List Io) : Prop :=
  ∃ pre post, answers = pre ++ post ∧ (∀ a ∈ pre, a.Moves) ∧ (pre.map Io.toSize).sum = length

/-- A `-1` that comes before the counts add up, with no `0` before. -/
def ErrorComes (length : Nat) (answers : List Io) : Prop :=
  ∃ pre post, answers = pre ++ Io.fail :: post ∧ (∀ a ∈ pre, a.Moves) ∧ (pre.map Io.toSize).sum < length

/-- **What a loop promises** with `left` bytes to go, of a buffer of `length` bytes. -/
structure LoopContract (length left : Nat) (answers : List Io) (r : FixSizeRun) : Prop where
  stops : ∀ pre c post, r.calls = pre ++ c :: post → ¬ c.answer.Moves → post = [] ∧ r.ret ≠ none
  waits : r.ret = none → (∀ a ∈ answers, a.Moves) ∧ (answers.map Io.toSize).sum < left
  inside : ∀ c ∈ r.calls, c.offset + c.asked ≤ length
  full : r.ret = some length ↔ AddsUp left answers
  failed : ∀ v, r.ret = some v → ¬ AddsUp left answers → v ≤ 0

/-- **What `readFixSize` and `writeFixSize` promise.**  They end at the first `-1` or `0` and wait only
for bytes that are missing, every call stays inside the buffer, and they return the length
exactly when the counts add up to it, else something that is `<= 0`. -/
def FixSizeContract (length : Nat) (answers : List Io) : Prop :=
  LoopContract length length answers (fixSizeRun length answers)

/-! ### The conditions, answer by answer -/

section

variable {left k : Nat} {answers : List Io}

/-- Nothing is left to be read. -/
theorem addsUp_zero : AddsUp 0 answers := ⟨[], answers, rfl, by simp, rfl⟩

/-- Without an answer something is left. -/
theorem not_addsUp_nil (h : 0 < left) : ¬ AddsUp left [] := by
  rintro ⟨pre, post, heq, -, hsum⟩
  obtain ⟨rfl, -⟩ := List.append_eq_nil_iff.1 heq.symm
  rw [List.map_nil, List.sum_nil] at hsum
  omega

/-- An answer that does not move ends the sum. -/
theorem not_addsUp_stop {a : Io} (h : 0 < left) (ha : ¬ a.Moves) : ¬ AddsUp left (a :: answers) := by
  rintro ⟨pre, post, heq, hmoves, hsum⟩
  cases pre with
  | nil =>
    rw [List.map_nil, List.sum_nil] at hsum
    omega
  | cons b pre =>
    obtain ⟨rfl, -⟩ := List.cons.inj heq
    exact ha (hmoves a List.mem_cons_self)

/-- One answer, then the others. -/
theorem addsUp_count (hk : 0 < k) (hle : k ≤ left) : AddsUp left (.count k :: answers) ↔ AddsUp (left - k) answers := by
  constructor
  · rintro ⟨pre, post, heq, hmoves, hsum⟩
    cases pre with
    | nil =>
      rw [List.map_nil, List.sum_nil] at hsum
      omega
    | cons b pre =>
      obtain ⟨rfl, rfl⟩ := List.cons.inj heq
      refine ⟨pre, post, rfl, fun a ha => hmoves a (List.mem_cons_of_mem _ ha), ?_⟩
      rw [List.map_cons, List.sum_cons, Io.toSize] at hsum
      omega
  · rintro ⟨pre, post, rfl, hmoves, hsum⟩
    refine ⟨.count k :: pre, post, rfl, ?_, ?_⟩
    · intro a ha
      rcases List.mem_cons.1 ha with rfl | ha
      · exact hk
      · exact hmoves a ha
    · rw [List.map_cons, List.sum_cons, Io.toSize, hsum]
      omega

/-- The error that comes first. -/
theorem errorComes_fail (h : 0 < left) : ErrorComes left (.fail :: answers) := ⟨[], answers, rfl, by simp, h⟩

/-- An error after a count. -/
theorem ErrorComes.count (hk : 0 < k) (hle : k ≤ left) (h : ErrorComes (left - k) answers) :
    ErrorComes left (.count k :: answers) := by
  obtain ⟨pre, post, rfl, hmoves, hsum⟩ := h
  refine ⟨.count k :: pre, post, rfl, ?_, ?_⟩
  · intro a ha
    rcases List.mem_cons.1 ha with rfl | ha
    · exact hk
    · exact hmoves a ha
  · rw [List.map_cons, List.sum_cons, Io.toSize]
    omega

end

/-! ### The loop without an error -/

section

variable {length offset left k : Nat} {answers : List Io} {r : FixSizeRun}

/-- The loop that is done. -/
theorem loopContract_done : LoopContract length 0 answers ⟨[], some length⟩ where
  stops pre c post h := by simp at h
  waits h := by cases h
  inside c hc := by cases hc
  full := ⟨fun _ => addsUp_zero, fun _ => rfl⟩
  failed v _ hnot := (hnot addsUp_zero).elim

/-- The loop that waits for an answer. -/
theorem loopContract_wait (hleft : 0 < left) : LoopContract length left [] ⟨[], none⟩ where
  stops pre c post h := by simp at h
  waits _ := ⟨by simp, hleft⟩
  inside c hc := by cases hc
  full := ⟨nofun, fun h => (not_addsUp_nil hleft h).elim⟩
  failed v h := by cases h

/-- The stream is closed. -/
theorem loopContract_closed (hleft : 0 < left) (hin : offset + left = length) :
    LoopContract length left (.count 0 :: answers) ⟨[⟨offset, left, .count 0⟩], some 0⟩ where
  stops pre c post h _ := by
    cases pre with
    | nil => exact ⟨(List.cons.inj h).2.symm, nofun⟩
    | cons d pre => simp at h
  waits h := by cases h
  inside c hc := by
    rw [List.mem_singleton.1 hc]
    exact Nat.le_of_eq hin
  full := by
    constructor
    · intro h
      have := Option.some.inj h
      omega
    · exact fun h => (not_addsUp_stop hleft (a := .count 0) (Nat.lt_irrefl 0) h).elim
  failed v h _ := by
    obtain rfl := Option.some.inj h
    exact Nat.le_refl 0

/-- Some bytes, and then the rest. -/
theorem LoopContract.count (h : LoopContract length (left - k) answers r) (hk : 0 < k) (hle : k ≤ left)
    (hin : offset + left = length) :
    LoopContract length left (.count k :: answers) (r.after [⟨offset, left, .count k⟩]) where
  stops pre c post heq hstop := by
    cases pre with
    | nil =>
      obtain ⟨rfl, -⟩ := List.cons.inj heq
      exact (hstop hk).elim
    | cons d pre => exact h.stops pre c post (List.cons.inj heq).2 hstop
  waits hnone := by
    obtain ⟨hmoves, hsum⟩ := h.waits hnone
    refine ⟨?_, ?_⟩
    · intro a ha
      rcases List.mem_cons.1 ha with rfl | ha
      · exact hk
      · exact hmoves a ha
    · rw [List.map_cons, List.sum_cons, Io.toSize]
      omega
  inside c hc := by
    rcases List.mem_cons.1 hc with rfl | hc
    · exact Nat.le_of_eq hin
    · exact h.inside c hc
  full := by
    rw [addsUp_count hk hle]
    exact h.full
  failed := by
    rw [addsUp_count hk hle]
    exact h.failed

end

/-- A turn of the loop that goes on. -/
theorem fixSizeLoop_cons {length offset left : Nat} {a : Io} {answers : List Io} (hleft : 0 < left)
    (hlen : 0 < a.toSize) :
    fixSizeLoop length (a :: answers) offset left =
      (fixSizeLoop length answers ((offset + a.toSize) % sizeMod)
        ((left + (sizeMod - a.toSize)) % sizeMod)).after [⟨offset, left, a⟩] := by
  rw [fixSizeLoop, if_neg (Nat.ne_of_gt hleft), if_neg (Nat.ne_of_gt hlen)]

/-- No more is taken than is left, and nothing wraps. -/
theorem fixSizeLoop_count {length offset left k : Nat} {answers : List Io} (hlength : length < sizeMod)
    (hin : offset + left = length) (hk : 0 < k) (hle : k ≤ left) :
    fixSizeLoop length (.count k :: answers) offset left =
      (fixSizeLoop length answers (offset + k) (left - k)).after [⟨offset, left, .count k⟩] := by
  have hoffset : (offset + k) % sizeMod = offset + k := Nat.mod_eq_of_lt (by omega)
  have hsub : (left + (sizeMod - k)) % sizeMod = left - k := by
    have hsum : left + (sizeMod - k) = left - k + sizeMod := by omega
    rw [hsum, Nat.add_mod_right, Nat.mod_eq_of_lt (by omega)]
  rw [fixSizeLoop_cons (by omega) (a := .count k) hk, Io.toSize, hoffset, hsub]

/-- With nothing left the loop returns the length. -/
theorem fixSizeLoop_done {length offset : Nat} {answers : List Io} :
    fixSizeLoop length answers offset 0 = ⟨[], some length⟩ := by
  cases answers with
  | nil => rfl
  | cons a answers => rw [fixSizeLoop, if_pos rfl]

/-- **Without an error the loop keeps its promise**, from any place in the buffer. -/
theorem fixSizeLoop_contract {length : Nat} (hlength : length < sizeMod) :
    ∀ {answers : List Io} {offset left : Nat}, offset + left = length →
      (fixSizeLoop length answers offset left).Answered → ¬ ErrorComes left answers →
      LoopContract length left answers (fixSizeLoop length answers offset left)
  | answers, offset, 0, _, _, _ => by
    rw [fixSizeLoop_done]
    exact loopContract_done
  | [], offset, left + 1, _, _, _ => loopContract_wait (Nat.succ_pos left)
  | .fail :: answers, offset, left + 1, _, _, herr => (herr (errorComes_fail (Nat.succ_pos left))).elim
  | .count 0 :: answers, offset, left + 1, hin, _, _ => loopContract_closed (Nat.succ_pos left) hin
  | .count (k + 1) :: answers, offset, left + 1, hin, hans, herr => by
    have hle : k + 1 ≤ left + 1 := by
      rw [fixSizeLoop_cons (Nat.succ_pos left) (a := .count (k + 1)) (Nat.succ_pos k)] at hans
      exact hans _ List.mem_cons_self _ rfl
    rw [fixSizeLoop_count hlength hin (Nat.succ_pos k) hle] at hans ⊢
    have hin' : offset + (k + 1) + (left + 1 - (k + 1)) = length := by omega
    have ih := fixSizeLoop_contract hlength hin' (fun c hc => hans c (List.mem_cons_of_mem _ hc))
      fun h => herr (h.count (Nat.succ_pos k) hle)
    exact ih.count (Nat.succ_pos k) hle hin

/-! ### The loop with an error -/

/-- The loop after the answers before the error. -/
theorem fixSizeLoop_append {length : Nat} (hlength : length < sizeMod) :
    ∀ {pre answers : List Io} {offset left : Nat}, offset + left = length →
      (fixSizeLoop length (pre ++ answers) offset left).Answered → (∀ a ∈ pre, a.Moves) →
      (pre.map Io.toSize).sum < left →
      ∃ calls, (∀ c ∈ calls, c.answer.Moves) ∧
        fixSizeLoop length (pre ++ answers) offset left =
          (fixSizeLoop length answers (offset + (pre.map Io.toSize).sum)
            (left - (pre.map Io.toSize).sum)).after calls
  | [], answers, offset, left, _, _, _, _ => ⟨[], by simp, rfl⟩
  | .fail :: pre, _, _, _, _, _, hmoves, _ => (hmoves .fail List.mem_cons_self).elim
  | .count k :: pre, answers, offset, left, hin, hans, hmoves, hsum => by
    have hk : 0 < k := hmoves (.count k) List.mem_cons_self
    rw [List.map_cons, List.sum_cons, Io.toSize] at hsum ⊢
    rw [List.cons_append, fixSizeLoop_count hlength hin hk (by omega)] at hans ⊢
    obtain ⟨calls, hcalls, heq⟩ := @fixSizeLoop_append _ hlength _ _ (offset + k) (left - k) (by omega)
      (fun c hc => hans c (List.mem_cons_of_mem _ hc)) (fun a ha => hmoves a (List.mem_cons_of_mem _ ha)) (by omega)
    refine ⟨⟨offset, left, .count k⟩ :: calls, ?_, ?_⟩
    · intro c hc
      rcases List.mem_cons.1 hc with rfl | hc
      · exact hk
      · exact hcalls c hc
    · rw [heq, Nat.add_assoc, Nat.sub_sub]
      rfl

/-- **After a `-1` the promise is broken**: the loop goes on, or returns the whole length. -/
theorem not_contract_of_errorComes {length : Nat} (hlength : length < sizeMod) {answers : List Io}
    (hans : (fixSizeRun length answers).Answered) (h : ErrorComes length answers) :
    ¬ FixSizeContract length answers := by
  obtain ⟨pre, post, rfl, hmoves, hsum⟩ := h
  intro hc
  obtain ⟨calls, hcalls, heq⟩ := fixSizeLoop_append hlength (Nat.zero_add length) hans hmoves hsum
  have hfail : 0 < Io.fail.toSize := by decide
  rw [fixSizeLoop_cons (by omega) hfail] at heq
  generalize hleft : (length - (pre.map Io.toSize).sum + (sizeMod - Io.fail.toSize)) % sizeMod = left at heq
  generalize (0 + (pre.map Io.toSize).sum + Io.fail.toSize) % sizeMod = offset at heq
  have hrun : fixSizeRun length (pre ++ .fail :: post) = _ := heq
  rw [FixSizeContract, hrun] at hc
  obtain ⟨hlast, hret⟩ := hc.stops calls _ _ rfl id
  -- the loop goes on after the error unless `left` wrapped to zero
  have hzero : left = 0 := by
    refine Classical.byContradiction fun hne => ?_
    cases post with
    | nil =>
      rw [fixSizeLoop, if_neg hne] at hret
      exact hret rfl
    | cons a post =>
      rw [fixSizeLoop, if_neg hne] at hlast
      dsimp only at hlast
      split at hlast
      · cases hlast
      · cases hlast
  -- and then it returns the length, which the counts do not add up to
  subst hzero
  have hfull : AddsUp length (pre ++ .fail :: post) := hc.full.1 (by rw [fixSizeLoop_done]; rfl)
  obtain ⟨pre', post', heq', hmoves', hsum'⟩ := hfull
  rcases List.append_eq_append_iff.1 heq' with ⟨mid, rfl, hmid⟩ | ⟨mid, rfl, -⟩
  · cases mid with
    | nil =>
      rw [List.append_nil] at hsum'
      omega
    | cons a mid =>
      obtain ⟨rfl, -⟩ := List.cons.inj hmid
      exact hmoves' .fail (List.mem_append_right _ List.mem_cons_self)
  · rw [List.map_append, List.sum_append] at hsum
    omega

/-- **The promise is kept exactly when no error comes** before the counts add up or the stream is
closed. -/
theorem fixSizeContract_iff {length : Nat} (hlength : length < sizeMod) {answers : List Io}
    (hans : (fixSizeRun length answers).Answered) : FixSizeContract length answers ↔ ¬ ErrorComes length answers :=
  ⟨fun hc h => not_contract_of_errorComes hlength hans h hc, fixSizeLoop_contract hlength (Nat.zero_add length) hans⟩

/-! ### The loops over a link -/

/-- The bytes a call moved, and where. -/
def IoCall.moved (c : IoCall) : Option (Nat × Nat) :=
  match c.answer with
  | .count 0 => none
  | .count k => some (c.offset, k)
  | .fail => none

/-- The loop, over answers of at most what was asked for, returns `ret` and moves `parts`. -/
def Does (length offset left ret : Nat) (parts : List (Nat × Nat)) : Prop :=
  ∃ answers, (fixSizeLoop length answers offset left).Answered ∧
    (fixSizeLoop length answers offset left).ret = some ret ∧
    (fixSizeLoop length answers offset left).calls.filterMap IoCall.moved = parts

section

variable {length offset left ret k : Nat} {parts : List (Nat × Nat)}

/-- With nothing left the loop asks for nothing. -/
theorem does_done : Does length offset 0 length [] := by
  refine ⟨[], ?_, rfl, rfl⟩
  intro c hc
  cases hc

/-- On a closed stream the loop returns 0. -/
theorem does_closed (hleft : 0 < left) : Does length offset left 0 [] := by
  have heq : fixSizeLoop length [.count 0] offset left = ⟨[⟨offset, left, .count 0⟩], some 0⟩ := by
    rw [fixSizeLoop, if_neg (by omega)]
    rfl
  refine ⟨[.count 0], ?_, ?_, ?_⟩
  · rw [heq]
    intro c hc k hk
    rw [List.mem_singleton.1 hc] at hk
    cases hk
    exact Nat.zero_le _
  · rw [heq]
  · rw [heq]
    rfl

/-- One part, then the others. -/
theorem Does.count (hk : 0 < k) (hle : k ≤ left) (hleft : left < sizeMod)
    (h : Does length ((offset + k) % sizeMod) (left - k) ret parts) :
    Does length offset left ret ((offset, k) :: parts) := by
  obtain ⟨answers, hans, hret, hparts⟩ := h
  have hsub : (left + (sizeMod - k)) % sizeMod = left - k := by
    have hsum : left + (sizeMod - k) = left - k + sizeMod := by omega
    rw [hsum, Nat.add_mod_right, Nat.mod_eq_of_lt (by omega)]
  have heq := @fixSizeLoop_cons length offset left (.count k) answers (by omega) hk
  rw [Io.toSize, hsub] at heq
  refine ⟨.count k :: answers, ?_, ?_, ?_⟩
  · rw [heq]
    intro c hc j hj
    rcases List.mem_cons.1 hc with rfl | hc
    · cases hj
      exact hle
    · exact hans c hc j hj
  · rw [heq]
    exact hret
  · obtain ⟨k, rfl⟩ : ∃ j, k = j + 1 := ⟨k - 1, by omega⟩
    rw [heq, ← hparts]
    rfl

/-- An answer of -1 moves the offset back by one and the length up. -/
theorem Does.fail (hleft : 0 < left)
    (h : Does length ((offset + (sizeMod - 1)) % sizeMod) ((left + 1) % sizeMod) ret parts) :
    Does length offset left ret parts := by
  obtain ⟨answers, hans, hret, hparts⟩ := h
  have heq := @fixSizeLoop_cons length offset left .fail answers hleft (by decide)
  refine ⟨.fail :: answers, ?_, ?_, ?_⟩
  · rw [heq]
    intro c hc j hj
    rcases List.mem_cons.1 hc with rfl | hc
    · cases hj
    · exact hans c hc j hj
  · rw [heq]
    exact hret
  · rw [heq, ← hparts]
    rfl

end

/-- **`readFixSize` over a link** is the loop over the answers the link gives, with the bytes put where
the calls were. -/
theorem readLoop_does (length : Nat) : ∀ (reads : List Io) (input : Bytes) (offset left : Nat), left < sizeMod →
    Does length offset left (readLoop length reads input offset left).ret
      ((readLoop length reads input offset left).writes.map fun w => (w.1, w.2.length))
  | [], input, offset, left, hlt => by
    rw [readLoop]
    split
    · rename_i hzero
      subst hzero
      exact does_done
    rename_i hleft
    split
    · exact does_closed (by omega)
    rename_i hinput
    have hpos : 0 < input.length := List.length_pos_iff.2 hinput
    split
    · rename_i hle
      have hlen : (input.take left).length = left := by
        rw [List.length_take]
        omega
      have hdone : Does length ((offset + left) % sizeMod) (left - left) length [] := by
        rw [Nat.sub_self]
        exact does_done
      rw [List.map_cons, hlen]
      exact hdone.count (by omega) (Nat.le_refl left) hlt
    · have hclosed : Does length ((offset + input.length) % sizeMod) (left - input.length) 0 [] :=
        does_closed (by omega)
      exact hclosed.count (k := input.length) hpos (by omega) hlt
  | .count k :: reads, input, offset, left, hlt => by
    rw [readLoop]
    split
    · rename_i hzero
      subst hzero
      exact does_done
    dsimp only
    split
    · exact does_closed (by omega)
    · rename_i hlen
      have htake : (input.take (min k (min left input.length))).length = min k (min left input.length) := by
        rw [List.length_take]
        omega
      rw [List.map_cons, htake]
      exact (readLoop_does length reads _ _ _ (by omega)).count (by omega) (by omega) hlt
  | .fail :: reads, input, offset, left, hlt => by
    rw [readLoop]
    split
    · rename_i hzero
      subst hzero
      exact does_done
    · exact (readLoop_does length reads _ _ _ (Nat.mod_lt _ (by decide))).fail (by omega)

/-- **`writeFixSize` over a link** is the loop over the answers the link gives. -/
theorem writeLoop_does (length : Nat) : ∀ (writes : List Io) (offset left : Nat), left < sizeMod →
    Does length offset left (writeLoop length writes offset left).ret (writeLoop length writes offset left).parts
  | [], offset, left, hlt => by
    rw [writeLoop]
    split
    · rename_i hzero
      subst hzero
      exact does_done
    · have hdone : Does length ((offset + left) % sizeMod) (left - left) length [] := by
        rw [Nat.sub_self]
        exact does_done
      exact hdone.count (by omega) (Nat.le_refl left) hlt
  | .count k :: writes, offset, left, hlt => by
    rw [writeLoop]
    split
    · rename_i hzero
      subst hzero
      exact does_done
    dsimp only
    split
    · exact does_closed (by omega)
    · exact (writeLoop_does length writes _ _ (by omega)).count (by omega) (by omega) hlt
  | .fail :: writes, offset, left, hlt => by
    rw [writeLoop]
    split
    · rename_i hzero
      subst hzero
      exact does_done
    · exact (writeLoop_does length writes _ _ (Nat.mod_lt _ (by decide))).fail (by omega)

end Streams
end Wuchat
