/-
# The vendored HTTP parser: what the callbacks make of a call

Facts about all callbacks of a call of `http_parser_execute`, whatever its data.

What every callback does to the things it works on, step by step, the call does to them
(`execute_steps`).  And callbacks that do the same on an image of these things and answer
the same make the parser do the same (`execute_maps`): how far the parser gets, and which
callbacks it makes, can be told from the image.  `states` are the things as each callback
leaves them.
-/

import Wuchat.HttpParser.Execute

namespace Wuchat
namespace HttpParsing

open Foundation

variable {A B : Type} {p : HttpParser} {ch : UInt8}

/-- What the callbacks worked on when the work on a byte ended. -/
def Out.app : Out A → A
  | .next _ _ l => l.app
  | .exit _ _ l => l.app

/-! ### Step by step -/

/-- Each callback leaves something that stands in the relation `R` to what it got. -/
structure Settings.Steps (s : Settings A) (R : A → A → Prop) : Prop where
  refl : ∀ a, R a a
  trans : ∀ {a b c}, R a b → R b c → R a c
  notify : ∀ n p a, R a (s.notify n p a).1
  headersComplete : ∀ p a, R a (s.headersComplete p a).1
  data : ∀ m p bs a, R a (s.data m p bs a).1

section Steps

variable {s : Settings A} {R : A → A → Prop} (hs : s.Steps R)
include hs

/-- What one byte's program leads to is related to what the application was. -/
theorem run_steps (prog : Prog) (l : Locals A) : R l.app (prog.run s ch l).app := by
  induction prog generalizing l with
  | next p loop => exact hs.refl _
  | exit p adv => exact hs.refl _
  | mark m k ih => exact ih (l.mark m)
  | data m withByte adv p k ih =>
    unfold Prog.run
    cases l.marks m with
    | none => exact ih l
    | some bs =>
      dsimp only
      generalize (if withByte then bs ++ [ch] else bs) = part
      have hstep := hs.data m p part l.app
      split
      · exact hstep
      · exact hs.trans hstep (ih ({ l with app := (s.data m p part l.app).1 }.setMark m none))
  | notify n adv p k ih =>
    have hstep := hs.notify n p l.app
    unfold Prog.run
    dsimp only
    split
    · exact hstep
    · exact hs.trans hstep (ih { l with app := (s.notify n p l.app).1 })
  | headersComplete p k ih =>
    exact hs.trans (hs.headersComplete p l.app) (ih _ { l with app := (s.headersComplete p l.app).1 })

/-- The marks that are told at the end of the data keep the relation. -/
theorem flushMarks_steps (n : Nat) (ms : List Mark) (l : Locals A) :
    R l.app (flushMarks s n p ms l).app := by
  induction ms generalizing l with
  | nil => exact hs.refl _
  | cons m ms ih =>
    unfold flushMarks
    cases l.marks m with
    | none => exact ih l
    | some bs =>
      have hstep := hs.data m p bs l.app
      dsimp only
      split
      · exact hstep
      · exact hs.trans hstep (ih ({ l with app := (s.data m p bs l.app).1 }.setMark m none))

/-- The end of the data keeps the relation. -/
theorem endOfData_steps (n : Nat) (loop : Loop) (l : Locals A) : R l.app (endOfData s n p loop l).app := by
  cases loop with
  | outer => exact flushMarks_steps hs n _ l
  | field k | value k _ =>
    dsimp only [endOfData]
    split
    · exact hs.refl _
    · exact flushMarks_steps hs n _ l

/-- The loop over the bytes keeps the relation, by induction on them. -/
theorem executeLoop_steps (bs : Bytes) (n : Nat) (loop : Loop) (l : Locals A) :
    R l.app (executeLoop s bs n p loop l).app := by
  induction bs generalizing n p loop l with
  | nil => exact endOfData_steps hs n loop l
  | cons ch rest ih =>
    have hrun : R l.app ((byteProg loop ch p).run s ch l).app := run_steps hs _ l
    unfold executeLoop
    cases hout : (byteProg loop ch p).run s ch l with
    | next q loop' l' =>
      rw [hout] at hrun
      exact hs.trans hrun (ih _ _ _)
    | exit q adv l' =>
      rw [hout] at hrun
      exact hrun

/-- **What every callback does, the call does.** -/
theorem execute_steps (data : Bytes) (a : A) : R a (http_parser_execute s p data a).app := by
  unfold http_parser_execute
  split
  · exact hs.refl a
  split
  · cases p.state with
    | s_body_identity_eof => exact hs.notify _ _ _
    | _ => exact hs.refl a
  · exact executeLoop_steps hs data 0 .outer ⟨startMarks p.state, a⟩

end Steps

/-! ### On an image -/

/-- The callbacks `s'` do on the image under `f` what the callbacks `s` do, with the same answers. -/
structure Settings.Maps (f : A → B) (s : Settings A) (s' : Settings B) : Prop where
  notify : ∀ n p a, s'.notify n p (f a) = (f (s.notify n p a).1, (s.notify n p a).2)
  headersComplete : ∀ p a, s'.headersComplete p (f a) = (f (s.headersComplete p a).1, (s.headersComplete p a).2)
  data : ∀ m p bs a, s'.data m p bs (f a) = (f (s.data m p bs a).1, (s.data m p bs a).2)

/-- The image of the things the callbacks work on, with the same marks. -/
def Locals.map (f : A → B) (l : Locals A) : Locals B := ⟨l.marks, f l.app⟩

/-- The same end, on the image. -/
def Out.map (f : A → B) : Out A → Out B
  | .next p loop l => .next p loop (l.map f)
  | .exit p adv l => .exit p adv (l.map f)

/-- The same call, on the image. -/
def Executed.map (f : A → B) (e : Executed A) : Executed B := ⟨e.parsed, e.parser, f e.app⟩

section Maps

variable {f : A → B} {s : Settings A} {s' : Settings B} (hf : Settings.Maps f s s')
include hf

/-- One byte's program commutes with a map of the applications. -/
theorem run_maps (prog : Prog) (l : Locals A) : prog.run s' ch (l.map f) = (prog.run s ch l).map f := by
  induction prog generalizing l with
  | next p loop => rfl
  | exit p adv => rfl
  | mark m k ih => exact ih (l.mark m)
  | data m withByte adv p k ih =>
    unfold Prog.run
    simp only [Locals.map]
    cases l.marks m with
    | none => exact ih l
    | some bs =>
      dsimp only
      generalize (if withByte then bs ++ [ch] else bs) = part
      simp only [hf.data m p part l.app]
      split
      · rfl
      · exact ih ({ l with app := (s.data m p part l.app).1 }.setMark m none)
  | notify n adv p k ih =>
    unfold Prog.run
    simp only [Locals.map, hf.notify n p l.app]
    split
    · rfl
    · exact ih { l with app := (s.notify n p l.app).1 }
  | headersComplete p k ih =>
    unfold Prog.run
    simp only [Locals.map, hf.headersComplete p l.app]
    exact ih _ { l with app := (s.headersComplete p l.app).1 }

/-- So do the marks told at the end of the data. -/
theorem flushMarks_maps (n : Nat) (ms : List Mark) (l : Locals A) :
    flushMarks s' n p ms (l.map f) = (flushMarks s n p ms l).map f := by
  induction ms generalizing l with
  | nil => rfl
  | cons m ms ih =>
    unfold flushMarks
    simp only [Locals.map]
    cases l.marks m with
    | none => exact ih l
    | some bs =>
      simp only [hf.data m p bs l.app]
      split
      · rfl
      · exact ih ({ l with app := (s.data m p bs l.app).1 }.setMark m none)

/-- So does the end of the data. -/
theorem endOfData_maps (n : Nat) (loop : Loop) (l : Locals A) :
    endOfData s' n p loop (l.map f) = (endOfData s n p loop l).map f := by
  cases loop with
  | outer => exact flushMarks_maps hf n _ l
  | field k | value k _ =>
    dsimp only [endOfData]
    split
    · rfl
    · exact flushMarks_maps hf n _ l

/-- So does the loop over the bytes. -/
theorem executeLoop_maps (bs : Bytes) (n : Nat) (loop : Loop) (l : Locals A) :
    executeLoop s' bs n p loop (l.map f) = (executeLoop s bs n p loop l).map f := by
  induction bs generalizing n p loop l with
  | nil => exact endOfData_maps hf n loop l
  | cons ch rest ih =>
    rw [executeLoop, executeLoop, run_maps hf]
    cases (byteProg loop ch p).run s ch l with
    | next q loop' l' => exact ih _ _ _
    | exit q adv l' => rfl

/-- **The image of a call** is the call on the image. -/
theorem execute_maps (p : HttpParser) (data : Bytes) (a : A) :
    http_parser_execute s' p data (f a) = (http_parser_execute s p data a).map f := by
  unfold http_parser_execute
  split
  · rfl
  split
  · cases p.state with
    | s_body_identity_eof =>
      simp only [hf.notify .message_complete p a]
      rfl
    | _ => rfl
  · exact executeLoop_maps hf data 0 .outer ⟨startMarks p.state, a⟩

end Maps

/-! ### Every state on the way -/

/-- The callbacks `s`, which also note what each of them leaves. -/
def Settings.traced (s : Settings A) : Settings (A × List A) where
  notify n p a := (((s.notify n p a.1).1, a.2 ++ [(s.notify n p a.1).1]), (s.notify n p a.1).2)
  headersComplete p a :=
    (((s.headersComplete p a.1).1, a.2 ++ [(s.headersComplete p a.1).1]), (s.headersComplete p a.1).2)
  data m p bs a := (((s.data m p bs a.1).1, a.2 ++ [(s.data m p bs a.1).1]), (s.data m p bs a.1).2)

/-- What the callbacks of a call leave, one after the other. -/
def states (s : Settings A) (p : HttpParser) (data : Bytes) (a : A) : List A :=
  (http_parser_execute s.traced p data (a, [])).app.2

/-- Without their trace the traced callbacks are the plain ones. -/
theorem traced_maps (s : Settings A) : Settings.Maps Prod.fst s.traced s :=
  ⟨fun _ _ _ => rfl, fun _ _ => rfl, fun _ _ _ _ => rfl⟩

/-- Noting the states changes nothing of the call. -/
theorem execute_traced (s : Settings A) (p : HttpParser) (data : Bytes) (a : A) :
    (http_parser_execute s.traced p data (a, [])).app.1 = (http_parser_execute s p data a).app := by
  rw [execute_maps (traced_maps s) p data (a, [])]
  rfl

/-- What callbacks add to the notes: nothing, or states between the start and the end, with the end
among them. -/
def Noted (R : A → A → Prop) (a b : A × List A) : Prop :=
  (b.1 = a.1 ∧ b.2 = a.2) ∨ ∃ new, b.2 = a.2 ++ new ∧ b.1 ∈ new ∧ ∀ t ∈ new, R a.1 t ∧ R t b.1

section Notes

variable {s : Settings A} {R : A → A → Prop} (hs : s.Steps R)
include hs

/-- One callback adds one state. -/
theorem Noted.one (a : A × List A) {t : A} (h : R a.1 t) : Noted R a (t, a.2 ++ [t]) := by
  refine .inr ⟨[t], rfl, List.mem_singleton_self t, fun t' ht' => ?_⟩
  rw [List.mem_singleton.mp ht']
  exact ⟨h, hs.refl t⟩

/-- Two traces follow each other. -/
theorem Noted.trans {a b c : A × List A} (h : Noted R a b) (h' : Noted R b c) : Noted R a c := by
  rcases h with ⟨h₁, h₂⟩ | ⟨new, h₁, h₂, h₃⟩ <;> rcases h' with ⟨h₁', h₂'⟩ | ⟨new', h₁', h₂', h₃'⟩
  · exact .inl ⟨h₁'.trans h₁, h₂'.trans h₂⟩
  · rw [h₁] at h₃'
    rw [h₂] at h₁'
    exact .inr ⟨new', h₁', h₂', h₃'⟩
  · refine .inr ⟨new, h₂'.trans h₁, ?_, ?_⟩ <;> rwa [h₁']
  · refine .inr ⟨new ++ new', by rw [h₁', h₁, List.append_assoc], List.mem_append_right _ h₂', fun t ht => ?_⟩
    have hbc : R b.1 c.1 := (h₃' c.1 h₂').1
    rcases List.mem_append.mp ht with ht | ht
    · exact ⟨(h₃ t ht).1, hs.trans (h₃ t ht).2 hbc⟩
    · exact ⟨hs.trans (h₃ b.1 h₂).1 (h₃' t ht).1, (h₃' t ht).2⟩

/-- Every traced callback adds at most one state to the trace. -/
theorem traced_steps : s.traced.Steps (Noted R) where
  refl _ := .inl ⟨rfl, rfl⟩
  trans := Noted.trans hs
  notify n p a := Noted.one hs a (hs.notify n p a.1)
  headersComplete p a := Noted.one hs a (hs.headersComplete p a.1)
  data m p bs a := Noted.one hs a (hs.data m p bs a.1)

/-- **The states of a call lie between its start and its end**, and the end is one of them or the
start. -/
theorem states_between (p : HttpParser) (data : Bytes) (a : A) :
    (∀ t ∈ states s p data a, R a t ∧ R t (http_parser_execute s p data a).app) ∧
      ((http_parser_execute s p data a).app = a ∨
        (http_parser_execute s p data a).app ∈ states s p data a) := by
  have hcall := execute_steps (traced_steps hs) (p := p) data (a, [])
  rw [Noted, execute_traced, ← states] at hcall
  rcases hcall with ⟨hend, hnone⟩ | ⟨new, hnew, hend, hall⟩
  · rw [hnone]
    exact ⟨List.forall_mem_nil _, .inl hend⟩
  · rw [List.nil_append] at hnew
    rw [hnew]
    exact ⟨hall, .inr hend⟩

end Notes

end HttpParsing
end Wuchat
