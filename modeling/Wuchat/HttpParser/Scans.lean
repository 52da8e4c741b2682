/-
# The vendored HTTP parser: bytes that are taken or refused

`Scans P bs C Q` is the exact triple for the bytes before a body: from `P` the bytes `bs`
are all taken and lead to `Q` if `C` holds of them and no more than `max_header_size` bytes
have been counted, and otherwise `http_parser_execute` returns with an error.  `P` and `Q`
speak of the bytes counted so far, so that the bound is put together with the rest
(`Scans.append`).

`nread` has 32 bits, hence the bound on the number of bytes.
-/

import Wuchat.HttpParser.Runs

namespace Wuchat
namespace HttpParsing

open Foundation Http

variable {A : Type} {s : Settings A} {p : HttpParser} {ch : UInt8} {l : Locals A}

/-! ### Marks -/

/-- No mark. -/
def noMarks : Mark → Option Bytes := fun _ => none

/-- One mark, with the bytes from it. -/
def onlyMark (m : Mark) (bs : Bytes) : Mark → Option Bytes :=
  fun m' => if m' = m then some bs else none

/-- The only mark holds its bytes. -/
@[simp] theorem onlyMark_self (m : Mark) (bs : Bytes) : onlyMark m bs m = some bs := if_pos rfl

/-- Without a mark a byte is kept nowhere. -/
@[simp] theorem push_noMarks (ch : UInt8) (a : A) : Locals.push ⟨noMarks, a⟩ ch = ⟨noMarks, a⟩ := rfl

/-- A byte more under the only mark. -/
@[simp] theorem push_onlyMark (m : Mark) (bs : Bytes) (ch : UInt8) (a : A) :
    Locals.push ⟨onlyMark m bs, a⟩ ch = ⟨onlyMark m (bs ++ [ch]), a⟩ := by
  simp only [Locals.push, Locals.mk.injEq, and_true]
  funext m'
  by_cases h : m' = m <;> simp [onlyMark, h]

/-- A mark begun is the only one. -/
@[simp] theorem mark_noMarks (m : Mark) (a : A) :
    Locals.mark ⟨noMarks, a⟩ m = ⟨onlyMark m [], a⟩ := rfl

/-- The only mark, begun again, is left as it is. -/
@[simp] theorem mark_onlyMark (m : Mark) (bs : Bytes) (a : A) :
    Locals.mark ⟨onlyMark m bs, a⟩ m = ⟨onlyMark m bs, a⟩ := by
  simp only [Locals.mark, Locals.setMark, Locals.mk.injEq, and_true]
  funext m'
  by_cases h : m' = m <;> simp [onlyMark, h]

/-- Without its only mark there is none. -/
@[simp] theorem setMark_onlyMark (m : Mark) (bs : Bytes) (a : A) :
    Locals.setMark ⟨onlyMark m bs, a⟩ m none = ⟨noMarks, a⟩ := by
  simp only [Locals.setMark, Locals.mk.injEq, and_true]
  funext m'
  by_cases h : m' = m <;> simp [onlyMark, noMarks, h]

/-! ### Exact triples -/

/-- A condition on a run between two bytes. -/
abbrev Point (A : Type) := HttpParser → Loop → Locals A → Prop

/-- **The bytes are taken if `C` holds, with `Q` then; otherwise there is an error.** -/
def Out.Exactly (C : Prop) (Q : Point A) : Out A → Prop
  | .next p loop l => C ∧ Q p loop l
  | .exit p _ _ => ¬C ∧ p.http_errno ≠ .OK

/-- **The exact triple for counted bytes**, after `n` of them. -/
def Scans (s : Settings A) (P : Nat → Point A) (bs : Bytes) (C : Prop) (Q : Nat → Point A) : Prop :=
  ∀ n, n ≤ maxHeaderSize → n + bs.length < 2 ^ 32 → ∀ p loop l, P n p loop l →
    (runBytes s bs p loop l).Exactly (n + bs.length ≤ maxHeaderSize ∧ C) (Q (n + bs.length))

variable {C D : Prop} {o : Out A} {Q R : Point A}

/-- The condition may be replaced by one that says the same. -/
theorem Out.Exactly.congr (h : o.Exactly C Q) (hcd : C ↔ D) : o.Exactly D Q := by
  cases o with
  | next p loop l => exact ⟨hcd.mp h.1, h.2⟩
  | exit p adv l => exact ⟨fun hd => h.1 (hcd.mpr hd), h.2⟩

/-- What is reached may be weakened. -/
theorem Out.Exactly.mono (h : o.Exactly C Q) (hqr : ∀ p loop l, Q p loop l → R p loop l) :
    o.Exactly C R := by
  cases o with
  | next p loop l => exact ⟨h.1, hqr p loop l h.2⟩
  | exit p adv l => exact h

/-- More bytes after the taken ones. -/
theorem exactly_append {bs cs : Bytes} {loop : Loop} (h : (runBytes s bs p loop l).Exactly C Q)
    (hrest : C → ∀ p loop l, Q p loop l → (runBytes s cs p loop l).Exactly D R) :
    (runBytes s (bs ++ cs) p loop l).Exactly (C ∧ D) R := by
  rw [runBytes_append]
  cases hrun : runBytes s bs p loop l with
  | next p' loop' l' =>
    rw [hrun] at h
    exact (hrest h.1 p' loop' l' h.2).congr ⟨fun hd => ⟨h.1, hd⟩, And.right⟩
  | exit p' adv l' =>
    rw [hrun] at h
    exact ⟨fun hcd => h.1 hcd.1, h.2⟩

/-- One byte read alone is one program. -/
theorem exactly_byte {loop : Loop} (h : ((byteProg loop ch p).run s ch l).Exactly C Q) :
    (runBytes s [ch] p loop l).Exactly C Q := by
  rw [runBytes]
  cases hrun : (byteProg loop ch p).run s ch l with
  | next p' loop' l' =>
    rw [hrun] at h
    exact h
  | exit p' adv l' =>
    rw [hrun] at h
    exact h

/-- A failure meets no condition. -/
theorem exactly_fail {e : HttpErrno} (he : e ≠ .OK) (hc : ¬C) :
    ((fail e p).run s ch l).Exactly C Q := ⟨hc, he⟩

/-- A byte that fails ends the run, whatever follows it. -/
theorem exactly_of_fail {bs : Bytes} {loop : Loop} {e : HttpErrno} {p' : HttpParser}
    (hbyte : byteProg loop ch p = fail e p') (he : e ≠ .OK) (hc : ¬C) :
    (runBytes s (ch :: bs) p loop l).Exactly C Q := by
  rw [runBytes, hbyte]
  exact ⟨hc, he⟩

/-- Counted bytes, as long as the counter does not wrap around. -/
theorem addRead_nread {v : Nat} (h : p.nread + v < 2 ^ 32) : (addRead v p).nread = p.nread + v := by
  simp only [addRead]
  rw [Nat.mod_eq_of_lt (by omega : v < 2 ^ 32), Nat.mod_eq_of_lt h]

/-- The bytes of the headers must fit beside the others. -/
theorem exactly_countHeaderSize {v : Nat} {k : HttpParser → Prog} (hlt : p.nread + v < 2 ^ 32)
    (h : ((k (addRead v p)).run s ch l).Exactly C Q) :
    ((countHeaderSize v p k).run s ch l).Exactly (p.nread + v ≤ maxHeaderSize ∧ C) Q := by
  unfold countHeaderSize
  rw [addRead_nread hlt]
  split
  · exact exactly_fail (by decide) fun hc => by omega
  · exact h.congr ⟨fun hc => ⟨by omega, hc⟩, And.right⟩

/-- A byte of the outer loop, where the headers are read. -/
theorem exactly_outer (hs : p.state.parsingHeader = true) (hlt : p.nread + 1 < 2 ^ 32)
    (h : ((reexecute ch (addRead 1 p)).run s ch l).Exactly C Q) :
    ((byteProg .outer ch p).run s ch l).Exactly (p.nread + 1 ≤ maxHeaderSize ∧ C) Q := by
  unfold byteProg
  dsimp only
  rw [if_pos hs]
  exact exactly_countHeaderSize hlt h

/-- A byte of the outer loop with which an inner loop begins. -/
theorem exactly_enter {bs : Bytes} (loop : Loop) (hs : p.state.parsingHeader = true)
    (hlt : p.nread + 1 < 2 ^ 32)
    (hloop : reexecute ch (addRead 1 p) = byteProg loop ch (addRead 1 p))
    (h : (runBytes s (ch :: bs) (addRead 1 p) loop l).Exactly C Q) :
    (runBytes s (ch :: bs) p .outer l).Exactly (p.nread + 1 ≤ maxHeaderSize ∧ C) Q := by
  have hbyte : byteProg .outer ch p =
      if maxHeaderSize < p.nread + 1 then fail .HEADER_OVERFLOW (addRead 1 p)
      else byteProg loop ch (addRead 1 p) := by
    rw [← hloop, ← addRead_nread hlt]
    exact if_pos hs
  by_cases hmax : maxHeaderSize < p.nread + 1
  · rw [if_pos hmax] at hbyte
    exact exactly_of_fail hbyte (by decide) fun hc => by omega
  · rw [runBytes, hbyte, if_neg hmax]
    exact h.congr ⟨fun hc => ⟨by omega, hc⟩, And.right⟩

variable {P Q R : Nat → Point A} {bs cs : Bytes}

/-- No byte is scanned whatever the condition. -/
theorem Scans.nil (hc : C) : Scans s P [] C P := fun _ hle _ _ _ _ hp => ⟨⟨hle, hc⟩, hp⟩

/-- The condition of a scan may be replaced by one that says the same. -/
theorem Scans.congr (h : Scans s P bs C Q) (hcd : C ↔ D) : Scans s P bs D Q :=
  fun n hle hlt p loop l hp => (h n hle hlt p loop l hp).congr (and_congr_right fun _ => hcd)

/-- What a scan reaches may be weakened. -/
theorem Scans.post (h : Scans s P bs C Q) (hqr : ∀ n p loop l, Q n p loop l → R n p loop l) :
    Scans s P bs C R :=
  fun n hle hlt p loop l hp => (h n hle hlt p loop l hp).mono (hqr _)

/-- What a scan begins with may be strengthened. -/
theorem Scans.pre (h : Scans s Q bs C R) (hpq : ∀ n p loop l, P n p loop l → Q n p loop l) :
    Scans s P bs C R :=
  fun n hle hlt p loop l hp => h n hle hlt p loop l (hpq n p loop l hp)

/-- One scan, then another whose condition is asked behind the first. -/
theorem Scans.append (h : Scans s P bs C Q) (h' : C → Scans s Q cs D R) :
    Scans s P (bs ++ cs) (C ∧ D) R := by
  intro n hle hlt p loop l hp
  rw [List.length_append, ← Nat.add_assoc] at hlt ⊢
  refine (exactly_append (h n hle (by omega) p loop l hp) fun hc p loop l hq =>
    h' hc.2 (n + bs.length) hc.1 hlt p loop l hq).congr ?_
  exact ⟨fun hc => ⟨hc.2.1, hc.1.2, hc.2.2⟩, fun hc => ⟨⟨by omega, hc.2.1⟩, hc.1, hc.2.2⟩⟩

/-- Bytes that are always taken before others. -/
theorem Scans.then (h : Scans s P bs True Q) (h' : Scans s Q cs C R) : Scans s P (bs ++ cs) C R :=
  (h.append fun _ => h').congr ⟨And.right, fun hc => ⟨trivial, hc⟩⟩

/-- One byte, then a scan. -/
theorem Scans.cons (h : Scans s P [ch] True Q) (h' : Scans s Q cs C R) :
    Scans s P (ch :: cs) C R := h.then h'

/-- Bytes that are never taken. -/
theorem Scans.refuse (h : Scans s P bs False Q) (cs : Bytes) : Scans s P (bs ++ cs) False R :=
  (h.append (Q := Q) (D := True) (R := R) False.elim).congr ⟨And.left, False.elim⟩

/-! ### Calls from the start of a message -/

variable {q : HttpParser} {a b : A} {data : Bytes}

/-- A read without marks to begin with is the loop over its bytes. -/
theorem execute_eq (hp : p.http_errno = .OK) (hm : startMarks p.state = noMarks) (hne : data ≠ []) :
    http_parser_execute s p data a = executeLoop s data 0 p .outer ⟨noMarks, a⟩ := by
  rw [http_parser_execute, if_neg (not_not_intro hp), if_neg hne, hm]

/-- A call that takes all bytes. -/
theorem execute_of_taken (hp : p.http_errno = .OK) (hm : startMarks p.state = noMarks) (hne : data ≠ [])
    (h : runBytes s data p .outer ⟨noMarks, a⟩ = .next q .outer ⟨noMarks, b⟩) :
    http_parser_execute s p data a = ⟨data.length, q, b⟩ := by
  rw [execute_eq hp hm hne, executeLoop_of_next h, Nat.zero_add]
  rfl

/-- A call that ends before. -/
theorem execute_of_exited (hp : p.http_errno = .OK) (hm : startMarks p.state = noMarks) (hne : data ≠ [])
    {adv : Nat} (h : runBytes s data p .outer ⟨noMarks, a⟩ = .exit q adv l) :
    (http_parser_execute s p data a).parser = q := by
  rw [execute_eq hp hm hne]
  exact (executeLoop_of_exit h).1

end HttpParsing
end Wuchat
