/-
# The vendored HTTP parser: the callbacks of a connection

`Settings.recorded` are callbacks that also note that they were made, and `connection` are the calls of
`http_parser_execute` on the reads of a connection: a read of nothing is the end of it, and after a
message with an upgrade the bytes are not the parser's any more.

Whatever the bytes are, however they are cut and whatever the callbacks answer, they come in the order of
`Phase.next` (`callbacks_accepted`), so that the bytes of a body, all parts together, are as many as
the headers or the sizes of the chunks announce (`bodySize_message`).  There are none when `on_headers_complete`
answers 1 or 2, nor for a `CONNECT` that asks for an upgrade.
-/

import Mathlib.Algebra.GroupWithZero.Nat
import Wuchat.HttpParser.Phases
import Wuchat.HttpParser.Callbacks
import Wuchat.HttpParser.Cuts

namespace Wuchat
namespace HttpParsing

open Foundation Http

variable {A : Type} {s : Settings A} {p : HttpParser} {ch : UInt8} {set : MarkSet} {pend : Nat} {ph : Phase}

/-! ### Recorded callbacks -/

/-- The callbacks `s`, which also note that they were made. -/
def Settings.recorded (s : Settings A) : Settings (A × List Event) where
  notify n p a := (((s.notify n p a.1).1, a.2 ++ [.notice n p]), (s.notify n p a.1).2)
  headersComplete p a :=
    (((s.headersComplete p a.1).1, a.2 ++ [.headersComplete p (s.headersComplete p a.1).2]),
      (s.headersComplete p a.1).2)
  data m p bs a := (((s.data m p bs a.1).1, a.2 ++ [.data m bs.length]), (s.data m p bs a.1).2)

/-- Without the record the recorded callbacks are the plain ones. -/
theorem recorded_maps (s : Settings A) : Settings.Maps Prod.fst s.recorded s :=
  ⟨fun _ _ _ => rfl, fun _ _ => rfl, fun _ _ _ _ => rfl⟩

/-- The callbacks noted so far came in order, and end in the phase `ph`. -/
def Accepted (ph : Phase) (a : A × List Event) : Prop := a.2.foldlM Phase.next .idle = some ph

/-- A callback that may come next. -/
theorem Accepted.next {a : A × List Event} {e : Event} {ph' : Phase} (h : Accepted ph a) (b : A)
    (hnext : ph.next e = some ph') : Accepted ph' ((b, a.2 ++ [e]) : A × List Event) := by
  unfold Accepted at h ⊢
  simp [List.foldlM_append, h, hnext]

/-- How many bytes of the body are marked. -/
def Locals.pending (l : Locals A) : Nat := ((l.marks .body).getD []).length

/-- Where the body has no mark no byte of it is waiting. -/
theorem Locals.Matches.pending {l : Locals A} (h : l.Matches set) (hb : set.body = false) : l.pending = 0 := by
  have hmark := h .body
  rw [MarkSet.has, hb, Option.isSome_eq_false_iff, Option.isNone_iff_eq_none] at hmark
  rw [Locals.pending, hmark]
  rfl

/-- A new mark is empty. -/
theorem pending_mark (l : Locals A) (m : Mark) : (l.mark m).pending = l.pending := by
  cases m <;> simp [Locals.pending, Locals.mark, Locals.setMark]

/-- Only the mark of the body holds bytes that wait. -/
theorem pending_setMark_none (l : Locals A) (m : Mark) :
    (l.setMark m none).pending = if m = .body then 0 else l.pending := by
  cases m <;> simp [Locals.pending, Locals.setMark]

/-- A byte waits where the body is marked. -/
theorem Locals.Matches.pending_push {l : Locals A} (h : l.Matches set) (ch : UInt8) :
    (l.push ch).pending = if set.body then l.pending + 1 else 0 := by
  have hmark := h .body
  rw [MarkSet.has] at hmark
  rw [← hmark]
  unfold Locals.pending Locals.push
  cases hbody : l.marks .body <;> simp [hbody]

/-! ### Runs -/

/-- Where a run stands: what was told fits the parser, or there is an error. -/
def Out.Orderly : Out (A × List Event) → Prop
  | .next p _ l => ∃ ph, Accepted ph l.app ∧ Told p l.pending ph
  | .exit p _ l => ∃ ph, Accepted ph l.app ∧ (p.http_errno ≠ .OK ∨ Told p 0 ph)

/-- One byte's callbacks come in order when its program follows the phase. -/
theorem run_orderly {prog : Prog} {l : Locals (A × List Event)} (hm : l.Matches set)
    (hprog : prog.Follows set l.pending ph) (hacc : Accepted ph l.app) :
    (prog.run s.recorded ch l).Orderly := by
  induction prog generalizing set ph l with
  | next p loop => exact ⟨ph, hacc, by rw [hm.pending_push]; exact hprog⟩
  | exit p adv => exact ⟨ph, hacc, hprog⟩
  | mark m k ih => exact ih (hm.mark m) (by rw [pending_mark]; exact hprog) hacc
  | data m withByte adv p k ih =>
    unfold Prog.run
    have hset := hm m
    cases hmark : l.marks m with
    | none =>
      rw [hmark] at hset
      exact ih hm (by simpa [Prog.Follows, ← hset] using hprog) hacc
    | some bs =>
      rw [hmark, Option.isSome_some] at hset
      rw [Prog.Follows, if_pos hset.symm] at hprog
      dsimp only
      generalize hpart : (if withByte then bs ++ [ch] else bs) = part
      obtain ⟨ph', hnext, hk⟩ := hprog part.length (by
        rintro rfl
        rw [← hpart, Locals.pending, hmark]
        cases withByte <;> simp)
      have hacc' := hacc.next (s.data m p part l.app.1).1 hnext
      split
      · exact ⟨ph', hacc', .inl m.errno_ne⟩
      · refine ih (Locals.Matches.clear hm m) ?_ hacc'
        rw [pending_setMark_none]
        exact hk
  | notify n adv p k ih =>
    obtain ⟨ph', hnext, hk⟩ := hprog
    have hacc' := hacc.next (s.notify n p l.app.1).1 hnext
    unfold Prog.run
    dsimp only
    split
    · exact ⟨ph', hacc', .inl n.errno_ne⟩
    · exact ih hm hk hacc'
  | headersComplete p k ih =>
    obtain ⟨ph', hnext, hk⟩ := hprog (s.headersComplete p l.app.1).2
    exact ih _ hm hk (hacc.next (s.headersComplete p l.app.1).1 hnext)

/-- **Runs call back in order.** -/
theorem runBytes_orderly {bs : Bytes} {loop : Loop} {l : Locals (A × List Event)} (hc : Consistent p loop set)
    (hm : l.Matches set) (htold : Told p l.pending ph) (hacc : Accepted ph l.app) :
    (runBytes s.recorded bs p loop l).Orderly := by
  induction bs generalizing p loop l set ph with
  | nil => exact ⟨ph, hacc, htold⟩
  | cons ch rest ih =>
    have hfollows : (byteProg loop ch p).Follows set l.pending ph := follows_byteProg hc hm.pending htold
    have hgood : ((byteProg loop ch p).run s.recorded ch l).Good p.upgrade := run_good (keeps_byteProg hc) hm
    have horder : ((byteProg loop ch p).run s.recorded ch l).Orderly := run_orderly hm hfollows hacc
    unfold runBytes
    split
    · rename_i heq
      rw [heq] at hgood horder
      obtain ⟨⟨set', hc', hm'⟩, -⟩ := hgood
      obtain ⟨ph', hacc', htold'⟩ := horder
      exact ih hc' hm' htold' hacc'
    · rename_i heq
      rw [heq] at horder
      exact horder

/-! ### The end of the data -/

/-- The mark is one of the state. -/
def Mark.Of (s : State) : Mark → Prop
  | header_field => s = .s_header_field
  | header_value => s = .s_header_value
  | url => s.inUrl = true
  | body => s.holdsBody = true
  | status => s = .s_res_status

/-- The marks that are set are those of the state. -/
def Locals.Fit (l : Locals A) (s : State) : Prop := ∀ m, (l.marks m).isSome = true → m.Of s

/-- Marks that match a consistent parser fit its state. -/
theorem Consistent.fit {loop : Loop} {l : Locals A} (hc : Consistent p loop set) (hm : l.Matches set) :
    l.Fit p.state := by
  intro m hset
  rw [hm m] at hset
  cases m with
  | header_field => simpa [Mark.Of, MarkSet.has, hc.header_field] using hset
  | header_value => simpa [Mark.Of, MarkSet.has, hc.header_value] using hset
  | url => simpa [Mark.Of, MarkSet.has, hc.url] using hset
  | body => exact hc.body hset
  | status => simpa [Mark.Of, MarkSet.has, hc.status] using hset

/-- Marks that fit its state still do when one is cleared. -/
theorem Locals.Fit.clear {l : Locals A} {st : State} (h : l.Fit st) (a : A) (m : Mark) :
    (({ l with app := a } : Locals A).setMark m none).Fit st := by
  intro m' hset
  refine h m' ?_
  unfold Locals.setMark at hset
  by_cases hmm : m' = m
  · simp [hmm] at hset
  · simpa [hmm] using hset

/-- In a URL the message has begun, and at most its URL was told. -/
theorem told_of_inUrl {st : State} (hs : st.inUrl = true) {trailing : Bool} {length : Nat}
    (h : st.Told trailing length pend ph) : trailing = false ∧ (ph = .begun ∨ ph = .line .url) := by
  cases st <;> first
    | exact h
    | cases hs

/-- **A part may be handed out between two bytes**, and the state still fits what has been told. -/
theorem told_flush {l : Locals A} {m : Mark} {bs : Bytes} (h : Told p l.pending ph) (hfit : m.Of p.state)
    (hmark : l.marks m = some bs) :
    ∃ ph', ph.next (.data m bs.length) = some ph' ∧ Told p (l.setMark m none).pending ph' := by
  rw [pending_setMark_none]
  unfold Told at h ⊢
  cases m with
  | header_field =>
    rw [show p.state = _ from hfit] at h ⊢
    refine ⟨.field p.flags.trailing, ?_, .inr rfl⟩
    rcases h with hlines | rfl
    · exact hlines.field _
    · rfl
  | header_value =>
    rw [show p.state = _ from hfit] at h ⊢
    exact ⟨_, value_next h _, .inr rfl⟩
  | url =>
    obtain ⟨htrail, hph⟩ := told_of_inUrl hfit h
    refine ⟨.line .url, ?_, told_inUrl hfit htrail (.inr rfl)⟩
    rcases hph with rfl | rfl <;> rfl
  | status =>
    rw [show p.state = _ from hfit] at h ⊢
    refine ⟨.line .status, ?_, h.1, .inr rfl⟩
    rcases h.2 with rfl | rfl <;> rfl
  | body =>
    have hpend : l.pending = bs.length := by rw [Locals.pending, hmark]; rfl
    rw [hpend] at h
    rw [if_pos rfl]
    change p.state.holdsBody = true at hfit
    generalize p.state = st at h hfit ⊢
    cases st with
    | s_chunk_data =>
      obtain ⟨hlength, rfl⟩ := h
      exact ⟨_, chunk_next (Nat.le_add_right _ _), hlength, congrArg Phase.chunk (by omega)⟩
    | s_chunk_data_almost_done =>
      obtain rfl := h
      exact ⟨_, chunk_next (Nat.le_refl _), congrArg Phase.chunk (Nat.sub_self _)⟩
    | s_body_identity =>
      obtain ⟨hlength, rfl⟩ := h
      exact ⟨_, body_next (Nat.le_add_right _ _), hlength, congrArg Phase.body (by omega)⟩
    | s_body_identity_eof =>
      obtain rfl := h
      exact ⟨_, rfl, rfl⟩
    | _ => cases hfit

/-- Where a call ends: between two calls, in a phase that fits, or for good. -/
def Ended (e : Executed (A × List Event)) : Prop :=
  ∃ ph, Accepted ph e.app ∧
    (e.parser.http_errno ≠ .OK ∨ Stopped e.parser ∨ (Between e.parser ∧ Told e.parser 0 ph))

/-- The marks told at the end of the data come in order. -/
theorem flushMarks_orderly (hb : Between p) (n : Nat) (ms : List Mark) {l : Locals (A × List Event)}
    (hfit : l.Fit p.state)
    (hbody : Mark.body ∈ ms ∨ l.pending = 0) (htold : Told p l.pending ph) (hacc : Accepted ph l.app) :
    Ended (flushMarks s.recorded n p ms l) := by
  induction ms generalizing l ph with
  | nil =>
    have hpend : l.pending = 0 := hbody.resolve_left (List.not_mem_nil)
    rw [hpend] at htold
    exact ⟨ph, hacc, .inr (.inr ⟨hb, htold⟩)⟩
  | cons m ms ih =>
    unfold flushMarks
    cases hmark : l.marks m with
    | none =>
      refine ih hfit ?_ htold hacc
      rcases hbody with hmem | hpend
      · rcases List.mem_cons.mp hmem with rfl | hmem
        · exact .inr (by rw [Locals.pending, hmark]; rfl)
        · exact .inl hmem
      · exact .inr hpend
    | some bs =>
      obtain ⟨ph', hnext, htold'⟩ := told_flush htold (hfit m (by rw [hmark]; rfl)) hmark
      have hacc' := hacc.next (s.data m p bs l.app.1).1 hnext
      dsimp only
      split
      · exact ⟨ph', hacc', .inl m.errno_ne⟩
      · refine ih (hfit.clear _ m) ?_ htold' hacc'
        rcases hbody with hmem | hpend
        · rcases List.mem_cons.mp hmem with rfl | hmem
          · exact .inr (pending_setMark_none _ _)
          · exact .inl hmem
        · refine .inr ((pending_setMark_none _ _).trans ?_)
          split
          · rfl
          · exact hpend

/-- The end of the data tells its marks in order. -/
theorem endOfData_orderly (n : Nat) {loop : Loop} {l : Locals (A × List Event)} (hc : Consistent p loop set)
    (hm : l.Matches set) (htold : Told p l.pending ph) (hacc : Accepted ph l.app) :
    Ended (endOfData s.recorded n p loop l) := by
  have hflush : ∀ q : HttpParser, Between q → q.state = p.state → Told q l.pending ph →
      Ended (flushMarks s.recorded n q [.header_field, .header_value, .url, .body, .status] l) :=
    fun q hb hstate htold' => flushMarks_orderly hb n _ (hstate ▸ hc.fit hm) (.inl (by simp)) htold' hacc
  cases loop with
  | outer => exact hflush p hc.between rfl htold
  | field k | value k _ =>
    dsimp only [endOfData]
    split
    · exact ⟨ph, hacc, .inl (by simp)⟩
    · exact hflush _ (hc.addRead _).between rfl htold

/-! ### Calls -/

/-- **A call calls back in order.** -/
theorem execute_orderly (hb : Between p) (htold : Told p 0 ph) {a : A × List Event} (hacc : Accepted ph a)
    (data : Bytes) : ∃ ph', Accepted ph' (http_parser_execute s.recorded p data a).app ∧
      (data = [] ∨ Ended (http_parser_execute s.recorded p data a)) := by
  by_cases hdata : data = []
  · suffices hend : ∃ ph', Accepted ph' (http_parser_execute s.recorded p data a).app from
      hend.imp fun _ h => ⟨h, .inl hdata⟩
    unfold http_parser_execute
    rw [if_neg (by simp [hb.ok]), if_pos hdata]
    cases hst : p.state with
    | s_body_identity_eof =>
      unfold Told at htold
      rw [hst] at htold
      obtain rfl := htold
      exact ⟨.idle, hacc.next _ rfl⟩
    | _ => exact ⟨ph, hacc⟩
  · have hm := startMarks_matches p a
    have hpend : Told p (⟨startMarks p.state, a⟩ : Locals (A × List Event)).pending ph := by
      rw [hm.pending rfl]
      exact htold
    have hended : Ended (http_parser_execute s.recorded p data a) := by
      rw [execute_of_ok hb.ok hdata]
      have hrun : (runBytes s.recorded data p .outer ⟨startMarks p.state, a⟩).Orderly :=
        runBytes_orderly hb hm hpend hacc
      have hgood := runBytes_between (s := s.recorded) hb data a
      cases hout : runBytes s.recorded data p .outer ⟨startMarks p.state, a⟩ with
      | next q loop l =>
        rw [hout] at hrun hgood
        obtain ⟨ph', hacc', htold'⟩ := hrun
        obtain ⟨⟨set', hc, hm'⟩, -⟩ := hgood
        rw [executeLoop_of_next hout]
        exact endOfData_orderly _ hc hm' htold' hacc'
      | exit q adv l =>
        rw [hout] at hrun hgood
        obtain ⟨ph', hacc', -⟩ := hrun
        obtain ⟨hpar, happ⟩ := executeLoop_of_exit (n := 0) hout
        refine ⟨ph', by rw [happ]; exact hacc', ?_⟩
        rw [hpar]
        exact hgood.1.imp_right .inl
    obtain ⟨ph', hacc', hcase⟩ := hended
    exact ⟨ph', hacc', .inr ⟨ph', hacc', hcase⟩⟩

/-- The condition can be computed. -/
instance : DecidablePred Stopped := fun _ => inferInstanceAs (Decidable (_ ∧ _))

/-- **The calls on the reads of a connection**: up to a read of nothing, an error, or a message after which
another protocol is spoken. -/
def connection (s : Settings A) : List Bytes → HttpParser → A → HttpParser × A
  | [], p, a => (p, a)
  | data :: reads, p, a =>
    let e := http_parser_execute s p data a
    if data = [] ∨ e.parser.http_errno ≠ .OK ∨ Stopped e.parser then (e.parser, e.app)
    else connection s reads e.parser e.app

/-- The callbacks that are made on the reads of a connection. -/
def callbacks (s : Settings A) (reads : List Bytes) (t : HttpParserType) (a : A) : List Event :=
  (connection s.recorded reads (http_parser_init t) (a, [])).2.2

/-- The callbacks of any list of reads come in order, from any parser between two of them. -/
theorem connection_orderly (hb : Between p) (htold : Told p 0 ph) {a : A × List Event} (hacc : Accepted ph a)
    (reads : List Bytes) : ∃ ph', Accepted ph' (connection s.recorded reads p a).2 := by
  induction reads generalizing p ph a with
  | nil => exact ⟨ph, hacc⟩
  | cons data reads ih =>
    obtain ⟨ph', hacc', hcase⟩ := execute_orderly (s := s) hb htold hacc data
    unfold connection
    dsimp only
    split
    · exact ⟨ph', hacc'⟩
    · rename_i hgo
      obtain ⟨hdata, herr, hstop⟩ : data ≠ [] ∧ _ ∧ _ := by simpa only [not_or] using hgo
      obtain ⟨ph'', hacc'', hend⟩ := hcase.resolve_left hdata
      obtain ⟨hb', htold'⟩ := (hend.resolve_left herr).resolve_left hstop
      exact ih hb' htold' hacc''

/-- Recording changes nothing of the calls. -/
theorem connection_recorded (reads : List Bytes) (a : A × List Event) :
    (connection s.recorded reads p a).1 = (connection s reads p a.1).1 ∧
      (connection s.recorded reads p a).2.1 = (connection s reads p a.1).2 := by
  induction reads generalizing p a with
  | nil => exact ⟨rfl, rfl⟩
  | cons data reads ih =>
    have hsame := execute_maps (recorded_maps s) p data a
    unfold connection
    rw [hsame]
    dsimp only [Executed.map]
    split
    · exact ⟨rfl, rfl⟩
    · exact ih _

/-- A new parser has told nothing. -/
theorem told_init (t : HttpParserType) : Told (http_parser_init t) 0 .idle := by
  cases t <;> rfl

/-- No callback is in order. -/
theorem accepted_nil (a : A) : Accepted .idle ((a, []) : A × List Event) := rfl

/-- **The callbacks of a connection come in the order of the phases**, whatever is read, however it is
cut and whatever the callbacks answer. -/
theorem callbacks_accepted (s : Settings A) (reads : List Bytes) (t : HttpParserType) (a : A) :
    ∃ ph, (callbacks s reads t a).foldlM Phase.next .idle = some ph := by
  exact connection_orderly (between_init t) (told_init t) (accepted_nil a) reads

/-! ### The size of a body -/

/-- How many bytes of a body an event hands out. -/
def Event.bodySize : Event → Nat
  | .data .body size => size
  | _ => 0

/-- How many bytes the size of a chunk announces. -/
def Event.announced : Event → Nat
  | .notice .chunk_header p => p.content_length
  | _ => 0

/-- The event ends a message. -/
def Event.completes : Event → Bool
  | .notice .message_complete _ => true
  | _ => false

/-- How many bytes of what was announced are still to come. -/
def Phase.left : Phase → Nat
  | body left | chunk left => left
  | _ => 0

/-- The phases of a body whose size is announced. -/
def Phase.framed : Phase → Bool
  | body _ | chunks | chunk _ | trailer | trailed => true
  | field inTrailer | value inTrailer => inTrailer
  | _ => false

/-- What an event hands out is taken from what was announced. -/
theorem next_framed {e : Event} {ph' : Phase} (hph : ph.framed = true) (he : e.completes = false)
    (h : ph.next e = some ph') : ph'.framed = true ∧ e.bodySize + ph'.left = ph.left + e.announced := by
  unfold Phase.next at h
  split at h
  case h_14 | h_19 =>
    -- a part of a body or of a chunk
    split at h
    · cases h
      refine ⟨rfl, ?_⟩
      simp only [Event.bodySize, Phase.left, Event.announced]
      omega
    · cases h
  case h_18 =>
    -- the size of a chunk
    cases h
    split
    · rename_i hzero
      exact ⟨rfl, hzero.symm.trans (Nat.zero_add _).symm⟩
    · refine ⟨rfl, ?_⟩
      simp [Event.bodySize, Phase.left, Event.announced]
  all_goals
    cases h <;> first
      | exact ⟨hph, rfl⟩
      | exact ⟨rfl, rfl⟩
      | (cases hph; done)
      | cases he

/-- The parts of a body add up, as far as it goes. -/
theorem foldlM_framed {mid : List Event} {ph' : Phase} (hph : ph.framed = true)
    (hmid : ∀ e ∈ mid, e.completes = false) (h : mid.foldlM Phase.next ph = some ph') :
    ph'.framed = true ∧
      (mid.map Event.bodySize).sum + ph'.left = ph.left + (mid.map Event.announced).sum := by
  induction mid generalizing ph with
  | nil =>
    cases h
    exact ⟨hph, Nat.add_comm _ _⟩
  | cons e mid ih =>
    rw [List.foldlM_cons] at h
    obtain ⟨ph₁, hnext, hrest⟩ := Option.bind_eq_some_iff.mp h
    obtain ⟨hph₁, hsum₁⟩ := next_framed hph (hmid e List.mem_cons_self) hnext
    obtain ⟨hph', hsum⟩ := ih hph₁ (fun e' he' => hmid e' (List.mem_cons_of_mem _ he')) hrest
    refine ⟨hph', ?_⟩
    simp only [List.map_cons, List.sum_cons]
    omega

/-- A message is complete when all of its body has come. -/
theorem left_of_completes {e : Event} {ph' : Phase} (he : e.completes = true) (h : ph.next e = some ph') :
    ph.left = 0 := by
  obtain ⟨q, rfl⟩ : ∃ q, e = .notice .message_complete q := by
    unfold Event.completes at he
    split at he
    · exact ⟨_, rfl⟩
    · cases he
  cases ph with
  | body left =>
    cases left with
    | zero => rfl
    | succ left => cases h
  | chunk left => cases left <;> cases h
  | _ => rfl

/-- The size of a body is announced, unless the body goes to the end of the connection. -/
theorem framed_afterHeaders {q : HttpParser} {r : Int} (h : Phase.afterHeaders q r ≠ .untilEof) :
    (Phase.afterHeaders q r).framed = true := by
  unfold Phase.afterHeaders at h ⊢
  repeat' split
  all_goals first
    | rfl
    | simp_all

/-- Behind the headers stands the phase that holds their answer. -/
theorem next_headersComplete {q : HttpParser} {r : Int} {ph' : Phase}
    (h : ph.next (.headersComplete q r) = some ph') : ph' = .afterHeaders q r := by
  cases ph with
  | line m =>
    cases m <;> exact (Option.some.inj h).symm
  | value t =>
    cases t with
    | true => cases h
    | false => exact (Option.some.inj h).symm
  | _ => cases h

/-- **The body of a message is as long as announced**: between `on_headers_complete` and
`on_message_complete` the parts of the body add up to the length the headers give, or to the sizes of the
chunks, unless the body goes to the end of the connection. -/
theorem bodySize_message {reads : List Bytes} {t : HttpParserType} {a : A} {pre mid post : List Event}
    {q : HttpParser} {r : Int} {last : Event}
    (h : callbacks s reads t a = pre ++ .headersComplete q r :: mid ++ last :: post)
    (hmid : ∀ e ∈ mid, e.completes = false) (hlast : last.completes = true)
    (hlen : Phase.afterHeaders q r ≠ .untilEof) :
    (mid.map Event.bodySize).sum = (Phase.afterHeaders q r).left + (mid.map Event.announced).sum := by
  obtain ⟨ph, hall⟩ := connection_orderly (s := s) (between_init t) (told_init t) (accepted_nil a) reads
  unfold Accepted at hall
  rw [← callbacks, h] at hall
  rw [List.append_assoc, List.foldlM_append] at hall
  obtain ⟨ph₁, -, hall⟩ := Option.bind_eq_some_iff.mp hall
  rw [List.cons_append, List.foldlM_cons] at hall
  obtain ⟨ph₂, hhead, hall⟩ := Option.bind_eq_some_iff.mp hall
  rw [List.foldlM_append] at hall
  obtain ⟨ph₃, hbody, hall⟩ := Option.bind_eq_some_iff.mp hall
  rw [List.foldlM_cons] at hall
  obtain ⟨ph₄, hend, -⟩ := Option.bind_eq_some_iff.mp hall
  obtain rfl := next_headersComplete hhead
  obtain ⟨-, hsum⟩ := foldlM_framed (framed_afterHeaders hlen) hmid hbody
  rw [left_of_completes hlast hend] at hsum
  exact hsum

/-- A request with a chunk that comes in two reads. -/
def cutChunk : List Bytes :=
  [str "POST / HTTP/1.1\r\nTransfer-Encoding: chunked\r\n\r\n3\r\nab", str "c\r\n0\r\n\r\n"]

/-- The callbacks of `cutChunk`. -/
def cutEvents : List Event := callbacks nullSettings cutChunk .HTTP_REQUEST ()

/-- The parser at the end of the headers of `cutChunk`. -/
def cutHeaders : HttpParser where
  type := .HTTP_REQUEST
  flags := { Flags.none with chunked := true }
  state := .s_headers_done
  header_state := .h_transfer_encoding_chunked
  index := 6
  nread := 47
  content_length := ULLONG_MAX
  http_major := 1
  http_minor := 1
  status_code := 0
  method := .POST
  http_errno := .OK
  upgrade := false

/-- The statement at a message whose chunk is cut by two reads. -/
theorem bodySize_message_cutChunk :
    (((cutEvents.drop 5).take 6).map Event.bodySize).sum =
      (Phase.afterHeaders cutHeaders 0).left + (((cutEvents.drop 5).take 6).map Event.announced).sum ∧
    ((cutEvents.drop 5).take 6).map Event.bodySize = [0, 2, 1, 0, 0, 0] :=
  ⟨bodySize_message (show callbacks nullSettings cutChunk .HTTP_REQUEST () =
        cutEvents.take 4 ++ .headersComplete cutHeaders 0 :: (cutEvents.drop 5).take 6 ++
          cutEvents.getD 11 (.data .url 0) :: [] by decide)
      (by decide) (by decide) (by decide),
    by decide⟩

end HttpParsing
end Wuchat
