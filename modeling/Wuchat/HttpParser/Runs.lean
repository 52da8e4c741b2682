/-
# The vendored HTTP parser: runs

`runBytes` is the loop of `http_parser_execute` over some bytes without the end of the data,
and `executeLoop` over more bytes goes on from there (`executeLoop_append`).  Runs keep
the invariant of the marks (`runBytes_keeps`), whatever the callbacks are.

What callbacks do to the parser is little: as long as they return `0` the parser is in the same
states as with callbacks that do nothing.  `scan` is the run with such callbacks.  It says
where in the message a byte is, before anything is known of the callbacks.
-/

import Wuchat.HttpParser.Invariant

namespace Wuchat
namespace HttpParsing

open Foundation Http

variable {A : Type} {s : Settings A} {p : HttpParser} {up : Bool} {ch : UInt8}

/-! ### Runs and their ends -/

/-- The loop over some bytes, up to the next byte or to a return. -/
def runBytes (s : Settings A) : Bytes → HttpParser → Loop → Locals A → Out A
  | [], p, loop, l => .next p loop l
  | ch :: rest, p, loop, l =>
    match (byteProg loop ch p).run s ch l with
    | .next p loop l => runBytes s rest p loop l
    | .exit p adv l => .exit p adv l

/-- Bytes are read one after the other. -/
theorem runBytes_append (pre post : Bytes) (p : HttpParser) (loop : Loop) (l : Locals A) :
    runBytes s (pre ++ post) p loop l = match runBytes s pre p loop l with
      | .next p loop l => runBytes s post p loop l
      | .exit p adv l => .exit p adv l := by
  induction pre generalizing p loop l with
  | nil => rfl
  | cons ch rest ih =>
    rw [List.cons_append, runBytes, runBytes]
    cases (byteProg loop ch p).run s ch l with
    | next p' loop' l' => exact ih p' loop' l'
    | exit => rfl

/-- The same parser and the same work of the callbacks, at whatever byte. -/
def SameEnd (e e' : Executed A) : Prop := e.parser = e'.parser ∧ e.app = e'.app

/-- An end is like itself. -/
theorem SameEnd.rfl {e : Executed A} : SameEnd e e := ⟨Eq.refl _, Eq.refl _⟩

/-- Like ends are alike both ways. -/
theorem SameEnd.symm {e e' : Executed A} (h : SameEnd e e') : SameEnd e' e := ⟨h.1.symm, h.2.symm⟩

/-- Ends like a third are alike. -/
theorem SameEnd.trans {e e' e'' : Executed A} (h : SameEnd e e') (h' : SameEnd e' e'') : SameEnd e e'' :=
  ⟨h.1.trans h'.1, h.2.trans h'.2⟩

/-- Where the data ends does not count for the marks told. -/
theorem flushMarks_pos (n m : Nat) (p : HttpParser) (ms : List Mark) (l : Locals A) :
    SameEnd (flushMarks s n p ms l) (flushMarks s m p ms l) := by
  induction ms generalizing l with
  | nil => exact .rfl
  | cons a ms ih =>
    unfold flushMarks
    split
    · exact ih l
    · dsimp only
      split
      · exact .rfl
      · exact ih _

/-- Nor for the end of the data. -/
theorem endOfData_pos (n m : Nat) (p : HttpParser) (loop : Loop) (l : Locals A) :
    SameEnd (endOfData s n p loop l) (endOfData s m p loop l) := by
  cases loop with
  | outer => exact flushMarks_pos n m p _ l
  | field k | value k _ =>
    dsimp only [endOfData]
    split
    · exact .rfl
    · exact flushMarks_pos n m _ _ l

/-- The bytes before do not matter for the rest of a run. -/
theorem executeLoop_pos (bs : Bytes) (n m : Nat) (p : HttpParser) (loop : Loop) (l : Locals A) :
    SameEnd (executeLoop s bs n p loop l) (executeLoop s bs m p loop l) := by
  induction bs generalizing n m p loop l with
  | nil => exact endOfData_pos n m p loop l
  | cons ch rest ih =>
    unfold executeLoop
    split
    · exact ih _ _ _ _ _
    · exact .rfl

/-- A run goes on where the bytes before it ended. -/
theorem executeLoop_append (pre post : Bytes) (n : Nat) (p : HttpParser) (loop : Loop) (l : Locals A) :
    executeLoop s (pre ++ post) n p loop l = match runBytes s pre p loop l with
      | .next p loop l => executeLoop s post (n + pre.length) p loop l
      | .exit _ _ _ => executeLoop s pre n p loop l := by
  induction pre generalizing n p loop l with
  | nil => rfl
  | cons ch rest ih =>
    rw [List.cons_append, executeLoop, runBytes, executeLoop]
    cases (byteProg loop ch p).run s ch l with
    | next p' loop' l' =>
      dsimp only
      rw [ih]
      cases runBytes s rest p' loop' l' with
      | next => rw [List.length_cons, Nat.add_assoc n 1, Nat.add_comm 1]
      | exit => rfl
    | exit => rfl

/-- The end of a run whose bytes were all taken. -/
theorem executeLoop_of_next {bs : Bytes} {n : Nat} {loop loop' : Loop} {l l' : Locals A} {p' : HttpParser}
    (h : runBytes s bs p loop l = .next p' loop' l') :
    executeLoop s bs n p loop l = endOfData s (n + bs.length) p' loop' l' := by
  have happ := executeLoop_append (s := s) bs [] n p loop l
  rw [List.append_nil, h] at happ
  exact happ

/-- The end of a run with a return. -/
theorem executeLoop_of_exit {bs : Bytes} {n adv : Nat} {loop : Loop} {l l' : Locals A} {p' : HttpParser}
    (h : runBytes s bs p loop l = .exit p' adv l') :
    SameEnd (executeLoop s bs n p loop l) ⟨n, p', l'.app⟩ := by
  induction bs generalizing n p loop l with
  | nil => cases h
  | cons ch rest ih =>
    rw [runBytes] at h
    rw [executeLoop]
    cases hrun : (byteProg loop ch p).run s ch l with
    | next q loop' l₁ =>
      rw [hrun] at h
      exact ih (n := n + 1) h
    | exit q adv' l₁ =>
      rw [hrun] at h
      cases h
      exact .rfl

/-! ### Runs keep the invariant -/

/-- The marks are those of the set. -/
def Locals.Matches (l : Locals A) (set : MarkSet) : Prop := ∀ m, (l.marks m).isSome = set.has m

/-- A mark begun matches the set with it. -/
theorem Locals.Matches.mark {l : Locals A} {set : MarkSet} (h : l.Matches set) (m : Mark) :
    (l.mark m).Matches (set.put true m) := by
  intro m'
  have := h m'
  cases m <;> cases m' <;> simp_all [Locals.mark, Locals.setMark, MarkSet.has, MarkSet.put]

/-- A mark cleared matches the set without it. -/
theorem Locals.Matches.clear {l : Locals A} {set : MarkSet} (h : l.Matches set) (m : Mark) :
    (l.setMark m none).Matches (set.put false m) := by
  intro m'
  have := h m'
  cases m <;> cases m' <;> simp_all [Locals.setMark, MarkSet.has, MarkSet.put]

/-- A mark that is not set is none. -/
theorem Locals.Matches.skip {l : Locals A} {set : MarkSet} (h : l.Matches set) {m : Mark}
    (hm : l.marks m = none) : l.Matches (set.put false m) := by
  intro m'
  have := h m'
  by_cases hmm : m' = m
  · subst hmm
    rw [hm]
    cases m' <;> rfl
  · cases m <;> cases m' <;> simp_all [MarkSet.has, MarkSet.put]

/-- A byte under the marks changes none of them. -/
theorem Locals.Matches.push {l : Locals A} {set : MarkSet} (h : l.Matches set) (ch : UInt8) :
    (l.push ch).Matches set := by
  intro m
  rw [← h m]
  simp [Locals.push]

/-- Where a run stands: between two bytes, consistently, or at a return. -/
def Out.Good (up : Bool) : Out A → Prop
  | .next p loop l => (∃ set, Consistent p loop set ∧ l.Matches set) ∧ (up = true → p.upgrade = true)
  | .exit p _ _ => (p.http_errno ≠ .OK ∨ Stopped p) ∧ (up = true → p.upgrade = true)

/-- The error of a mark's callback is one. -/
theorem Mark.errno_ne (m : Mark) : m.errno ≠ .OK := by cases m <;> decide

/-- The error of a notice's callback is one. -/
theorem Notice.errno_ne (n : Notice) : n.errno ≠ .OK := by cases n <;> decide

/-- A program that keeps the marks is run well, whatever the callbacks do. -/
theorem run_good {prog : Prog} {set : MarkSet} {l : Locals A} (hk : prog.Keeps up set)
    (hm : l.Matches set) : (prog.run s ch l).Good up := by
  induction prog generalizing set l with
  | next p loop => exact ⟨⟨set, hk.1, hm.push ch⟩, hk.2⟩
  | exit p adv => exact hk
  | mark m k ih => exact ih hk (hm.mark m)
  | data m withByte adv p k ih =>
    unfold Prog.run
    split
    · exact ih hk.2 (hm.skip ‹_›)
    · rename_i bs _
      generalize s.data m p (if withByte then bs ++ [ch] else bs) l.app = r
      dsimp only
      split
      · exact ⟨.inl m.errno_ne, hk.1⟩
      · exact ih hk.2 (Locals.Matches.clear hm m)
  | notify n adv p k ih =>
    unfold Prog.run
    dsimp only
    split
    · exact ⟨.inl n.errno_ne, hk.1⟩
    · exact ih hk.2 hm
  | headersComplete p k ih => exact ih _ (hk _) hm

/-- **Runs keep the marks of the states.** -/
theorem runBytes_good {bs : Bytes} {loop : Loop} {l : Locals A} {set : MarkSet}
    (hc : Consistent p loop set) (hm : l.Matches set) (hup : up = true → p.upgrade = true) :
    (runBytes s bs p loop l).Good up := by
  induction bs generalizing p loop l set with
  | nil => exact ⟨⟨set, hc, hm⟩, hup⟩
  | cons ch rest ih =>
    have hgood : ((byteProg loop ch p).run s ch l).Good p.upgrade := run_good (keeps_byteProg hc) hm
    unfold runBytes
    split
    · rename_i heq
      rw [heq] at hgood
      obtain ⟨⟨set', hc', hm'⟩, hu⟩ := hgood
      exact ih hc' hm' fun h => hu (hup h)
    · rename_i heq
      rw [heq] at hgood
      exact ⟨hgood.1, fun h => hgood.2 (hup h)⟩

/-! ### Callbacks that do nothing -/

/-- Callbacks that do nothing. -/
def nullSettings : Settings Unit where
  notify _ _ _ := ((), 0)
  headersComplete _ _ := ((), 0)
  data _ _ _ _ := ((), 0)

/-- Two runs at the same place, unless the first had an error. -/
def Out.Agrees (o : Out A) (o' : Out Unit) : Prop :=
  match o, o' with
  | .next p loop l, .next p' loop' l' => p = p' ∧ loop = loop' ∧ l.marks = l'.marks
  | .exit p _ _, .exit p' _ _ => p.http_errno ≠ .OK ∨ p = p'
  | .exit p _ _, .next _ _ _ => p.http_errno ≠ .OK
  | .next _ _ _, .exit _ _ _ => False

/-- A return with an error agrees with everything. -/
theorem agrees_error {q : HttpParser} {adv : Nat} {l : Locals A} {o : Out Unit}
    (h : q.http_errno ≠ .OK) : (Out.exit q adv l).Agrees o := by
  cases o with
  | next => exact h
  | exit => exact .inl h

/-- With callbacks that answer 0 the parser does what it does without any. -/
theorem run_agrees (hq : ∀ p a, (s.headersComplete p a).2 = 0) {prog : Prog} {l : Locals A}
    {l' : Locals Unit} (hm : l.marks = l'.marks) : (prog.run s ch l).Agrees (prog.run nullSettings ch l') := by
  induction prog generalizing l l' with
  | next p loop =>
    refine ⟨rfl, rfl, ?_⟩
    simp only [Locals.push, hm]
  | exit p adv => exact .inr rfl
  | mark m k ih =>
    refine ih ?_
    simp only [Locals.mark, Locals.setMark, hm]
  | data m withByte adv p k ih =>
    unfold Prog.run
    rw [hm]
    split
    · exact ih hm
    · rename_i bs _
      generalize s.data m p (if withByte then bs ++ [ch] else bs) l.app = r
      dsimp only
      split
      · exact agrees_error m.errno_ne
      · exact ih rfl
  | notify n adv p k ih =>
    unfold Prog.run
    dsimp only
    split
    · exact agrees_error n.errno_ne
    · exact ih hm
  | headersComplete p k ih =>
    unfold Prog.run
    dsimp only
    rw [hq]
    exact ih 0 hm

/-- **Callbacks leave the parser in the states of the run without callbacks**, until
there is an error. -/
theorem runBytes_agrees (hq : ∀ p a, (s.headersComplete p a).2 = 0) {bs : Bytes} {loop : Loop}
    {l : Locals A} {l' : Locals Unit} (hm : l.marks = l'.marks) :
    (runBytes s bs p loop l).Agrees (runBytes nullSettings bs p loop l') := by
  induction bs generalizing p loop l l' with
  | nil => exact ⟨rfl, rfl, hm⟩
  | cons ch rest ih =>
    have hrun : ((byteProg loop ch p).run s ch l).Agrees ((byteProg loop ch p).run nullSettings ch l') :=
      run_agrees hq hm
    unfold runBytes
    cases h : (byteProg loop ch p).run s ch l with
    | next q loop₁ l₁ =>
      rw [h] at hrun
      cases h' : (byteProg loop ch p).run nullSettings ch l' with
      | next q' loop₂ l₂ =>
        rw [h'] at hrun
        obtain ⟨rfl, rfl, hm'⟩ := hrun
        exact ih hm'
      | exit =>
        rw [h'] at hrun
        exact hrun.elim
    | exit q adv l₁ =>
      rw [h] at hrun
      cases h' : (byteProg loop ch p).run nullSettings ch l' with
      | next q' loop₂ l₂ =>
        rw [h'] at hrun
        exact agrees_error hrun
      | exit q' _ l₂ =>
        rw [h'] at hrun
        exact hrun

/-- **Where a message stands after some bytes.** -/
def scan (p : HttpParser) (bs : Bytes) : Out Unit :=
  runBytes nullSettings bs p .outer ⟨startMarks p.state, ()⟩

end HttpParsing
end Wuchat
