/-
# The vendored HTTP parser: data in pieces

A call of `http_parser_execute` for some bytes and another call for the bytes after them do
what one call does for all of them (`execute_append`), if the cut is a clean one
(`cleanCut`): it lies in no URL, header name or header value, and not after the last byte of
one, since the parser leaves these only at the byte that follows.  There the end of the data
makes a callback for a part of the element that one call does not make.

A body and a reason phrase can be cut, since callbacks that append what they get, or ignore it,
cannot tell (`Settings.Cuttable`).  But the end of the data hands out what lies before the cut,
and one call loses it when an error comes before the element's end: in a chunk that
is not followed by `CR`, or in a reason phrase that runs over `max_header_size`.
-/

import Wuchat.HttpParser.Runs

namespace Wuchat
namespace HttpParsing

open Foundation Http

variable {A : Type} {s : Settings A} {p q : HttpParser}

/-! ### Clean cuts -/

/-- Callbacks that cannot tell whether a body or a reason phrase comes in one part. -/
structure Settings.Cuttable (s : Settings A) : Prop where
  headersComplete : ∀ p a, (s.headersComplete p a).2 = 0
  body_ok : ∀ p bs a, (s.data .body p bs a).2 = 0
  body_any : ∀ p q bs a, s.data .body p bs a = s.data .body q bs a
  body_append : ∀ p q bs cs a, s.data .body q cs (s.data .body p bs a).1 = s.data .body q (bs ++ cs) a
  status_ok : ∀ p bs a, (s.data .status p bs a).2 = 0
  status_last : ∀ p q bs cs cs' a,
    s.data .status q cs (s.data .status p bs a).1 = s.data .status q cs' a

/-- The chunk that is being read is followed by `CR`, as far as the bytes go. -/
def chunkEnds (p : HttpParser) (post : Bytes) : Bool :=
  match p.state with
  | .s_chunk_data => post.getD p.content_length CR == CR
  | .s_chunk_data_almost_done => post.headD CR == CR
  | _ => true

/-- The reason phrase that is being read ends within `max_header_size`, as far as the bytes
go. -/
def statusFits (p : HttpParser) : Bytes → Bool
  | [] => true
  | c :: rest =>
    (addRead 1 p).nread ≤ maxHeaderSize && (c == CR || c == LF || statusFits (addRead 1 p) rest)

/-- **A cut that the callbacks cannot tell.** -/
def cleanCut (p : HttpParser) (pre post : Bytes) : Bool :=
  match scan p pre with
  | .exit q _ _ => q.http_errno != .OK
  | .next q _ l =>
    !q.state.inUrl && q.state != .s_header_field && q.state != .s_header_value &&
      ((l.marks .body).isNone || chunkEnds q post) && (q.state != .s_res_status || statusFits q post)

/-! ### One mark -/

/-- At most the mark `m` is set. -/
def Locals.one (m : Mark) (o : Option Bytes) (a : A) : Locals A :=
  ⟨fun m' => if m' = m then o else none, a⟩

/-- The one mark is where it was set. -/
@[simp] theorem Locals.one_marks (m : Mark) (o : Option Bytes) (a : A) : (Locals.one m o a).marks m = o := by
  simp [Locals.one]

/-- The application beside one mark. -/
@[simp] theorem Locals.one_app (m : Mark) (o : Option Bytes) (a : A) : (Locals.one m o a).app = a := rfl

/-- The one mark set anew. -/
@[simp] theorem Locals.one_setMark (m : Mark) (o o' : Option Bytes) (a : A) :
    (Locals.one m o a).setMark m o' = Locals.one m o' a := by
  unfold Locals.one Locals.setMark
  congr 1
  funext m'
  dsimp only
  split <;> rfl

/-- The one mark begun, or left as it is. -/
@[simp] theorem Locals.one_mark (m : Mark) (o : Option Bytes) (a : A) :
    (Locals.one m o a).mark m = Locals.one m (some (o.getD [])) a := by
  simp [Locals.mark]

/-- A byte more under the one mark. -/
@[simp] theorem Locals.one_push (m : Mark) (o : Option Bytes) (a : A) (ch : UInt8) :
    (Locals.one m o a).push ch = Locals.one m (o.map (· ++ [ch])) a := by
  unfold Locals.one Locals.push
  congr 1
  funext m'
  dsimp only
  split <;> rfl

/-- Another application beside the same mark. -/
@[simp] theorem Locals.one_withApp (m : Mark) (o : Option Bytes) (a b : A) :
    ({ Locals.one m o a with app := b } : Locals A) = Locals.one m o b := rfl

/-- Without a mark the end of the data tells nothing. -/
theorem endOfData_none (n : Nat) (m : Mark) (a : A) :
    endOfData s n p .outer (Locals.one m none a) = ⟨n, p, a⟩ := by
  simp [endOfData, flushMarks, Locals.one]

/-- At the end of the data the marked part of the body is told. -/
theorem endOfData_body (hs : s.Cuttable) (n : Nat) (bs : Bytes) (a : A) :
    endOfData s n p .outer (Locals.one .body (some bs) a) = ⟨n, p, (s.data .body p bs a).1⟩ := by
  simp [endOfData, flushMarks, Locals.one, Locals.setMark, hs.body_ok]

/-- So is the marked part of the reason. -/
theorem endOfData_status (hs : s.Cuttable) (n : Nat) (bs : Bytes) (a : A) :
    endOfData s n p .outer (Locals.one .status (some bs) a) = ⟨n, p, (s.data .status p bs a).1⟩ := by
  simp [endOfData, flushMarks, Locals.one, Locals.setMark, hs.status_ok]

/-- The rest of a run, after the work on a byte. -/
def after (s : Settings A) (rest : Bytes) (n : Nat) : Out A → Executed A
  | .next p loop l => executeLoop s rest (n + 1) p loop l
  | .exit p adv l => ⟨n + adv, p, l.app⟩

/-- One byte of the loop, then the others. -/
theorem executeLoop_cons (ch : UInt8) (rest : Bytes) (n : Nat) (loop : Loop) (l : Locals A) :
    executeLoop s (ch :: rest) n p loop l = after s rest n ((byteProg loop ch p).run s ch l) := rfl

/-- Where the loop stands in the data does not count. -/
theorem after_pos (rest : Bytes) (n m : Nat) (o : Out A) : SameEnd (after s rest n o) (after s rest m o) := by
  cases o with
  | next p loop l => exact executeLoop_pos rest _ _ p loop l
  | exit p adv l => exact .rfl

/-! ### A part of a body handed out before -/

/-- The work on a byte of a body. -/
theorem byteProg_body (hp : p.state.holdsBody = true) (ch : UInt8) :
    byteProg .outer ch p = reexecute ch p := by
  unfold byteProg
  cases h : p.state <;> simp_all [State.holdsBody, State.parsingHeader]

/-- **A part of the body handed out earlier makes no difference.**  On the left the bytes `bs` were
handed out at the cut and `o` is what came since; on the right they are still marked. -/
theorem sameEnd_body (hs : s.Cuttable) (post : Bytes) (hp : p.state.holdsBody = true)
    (hchunk : p.state = .s_chunk_data → p.content_length ≠ 0) (hend : chunkEnds p post = true)
    (o : Option Bytes) (bs : Bytes) (a : A) (n m : Nat) :
    SameEnd (executeLoop s post n p .outer (.one .body o (s.data .body p bs a).1))
      (executeLoop s post m p .outer (.one .body (some (bs ++ o.getD [])) a)) := by
  induction post generalizing p o n m with
  | nil =>
    cases o with
    | none => simp [executeLoop, endOfData_none, endOfData_body hs, SameEnd]
    | some cs => simp [executeLoop, endOfData_body hs, hs.body_append, SameEnd]
  | cons ch rest ih =>
    rw [executeLoop_cons, executeLoop_cons, byteProg_body hp]
    -- the byte joins what is marked, on both sides
    have hnext : ∀ q : HttpParser, q.state.holdsBody = true →
        (q.state = .s_chunk_data → q.content_length ≠ 0) → chunkEnds q rest = true →
        SameEnd (executeLoop s rest (n + 1) q .outer (.one .body (some (o.getD [] ++ [ch])) (s.data .body p bs a).1))
          (executeLoop s rest (m + 1) q .outer (.one .body (some (bs ++ o.getD [] ++ [ch])) a)) := by
      intro q h₁ h₂ h₃
      have := ih h₁ h₂ h₃ (some (o.getD [] ++ [ch])) (n + 1) (m + 1)
      rw [hs.body_any q p] at this
      simpa using this
    unfold reexecute
    cases hst : p.state with
    | s_body_identity =>
      simp only [bodyIdentity, Prog.run, Locals.one_mark, Option.getD_some]
      split
      · simp only [Prog.run, Locals.one_marks, Locals.one_app, if_true, hs.body_ok, ne_eq, not_true_eq_false, if_false,
          Locals.one_withApp, Locals.one_setMark, hs.body_append, List.append_assoc]
        exact after_pos rest n m _
      · simp only [Prog.run, Locals.one_push, Option.map_some, after]
        refine hnext _ ?_ ?_ ?_
        · simpa using hp
        · simp [hst]
        · simp [chunkEnds, hst]
    | s_body_identity_eof =>
      simp only [Prog.run, Locals.one_mark, Option.getD_some, Locals.one_push, Option.map_some, after]
      refine hnext _ hp hchunk ?_
      simp [chunkEnds, hst]
    | s_chunk_data =>
      have hlen := hchunk hst
      simp only [chunkEnds, hst] at hend
      simp only [chunkData, Prog.run, Locals.one_mark, Option.getD_some]
      split
      · rename_i hz
        simp only [goto, Prog.run, Locals.one_push, Option.map_some, after]
        refine hnext _ rfl (by simp) ?_
        have hone : p.content_length = 1 := by omega
        rw [hone] at hend
        cases rest with
        | nil => rfl
        | cons c _ => simpa [chunkEnds] using hend
      · rename_i hz
        simp only [Prog.run, Locals.one_push, Option.map_some, after]
        refine hnext _ ?_ ?_ ?_
        · simpa using hp
        · exact fun _ => hz
        · obtain ⟨k, hk⟩ : ∃ k, p.content_length = k + 1 := ⟨p.content_length - 1, by omega⟩
          rw [hk] at hend
          simpa [chunkEnds, hst, hk] using hend
    | s_chunk_data_almost_done =>
      simp only [chunkEnds, hst, List.headD_cons, beq_iff_eq] at hend
      simp only [chunkDataAlmostDone, strictCheck, hend, ne_eq, not_true_eq_false, if_false, Prog.run,
        Locals.one_marks]
      cases o with
      | none =>
        simp only [Locals.one_app, hs.body_ok, not_true_eq_false, if_false, Locals.one_withApp, Locals.one_setMark,
          Option.getD_none, List.append_nil, hs.body_any _ p]
        exact after_pos rest n m _
      | some cs =>
        simp only [Locals.one_app, hs.body_ok, not_true_eq_false, if_false, Locals.one_withApp, Locals.one_setMark,
          Option.getD_some, Bool.false_eq_true, hs.body_append]
        exact after_pos rest n m _
    | _ =>
      rw [hst] at hp
      cases hp

/-! ### A part of a reason phrase handed out before -/

/-- **A part of the reason phrase handed out earlier makes no difference**, since the callback at its end
does the same again. -/
theorem sameEnd_status (hs : s.Cuttable) (post : Bytes) (hp : p.state = .s_res_status)
    (hfits : statusFits p post = true) (bs cs cs' : Bytes) (a : A) (n m : Nat) :
    SameEnd (executeLoop s post n p .outer (.one .status (some cs) (s.data .status q bs a).1))
      (executeLoop s post m p .outer (.one .status (some cs') a)) := by
  induction post generalizing p cs cs' n m with
  | nil =>
    simp only [executeLoop, endOfData_status hs, SameEnd]
    exact ⟨trivial, by rw [hs.status_last q p bs cs cs']⟩
  | cons ch rest ih =>
    rw [executeLoop_cons, executeLoop_cons]
    simp only [statusFits, Bool.and_eq_true, decide_eq_true_eq] at hfits
    obtain ⟨hle, hrest⟩ := hfits
    have hbyte : byteProg .outer ch p = resStatus ch (addRead 1 p) := by
      simp only [byteProg, hp, State.parsingHeader, if_true, countHeaderSize]
      rw [if_neg (by omega)]
      simp only [reexecute, addRead, hp]
    rw [hbyte]
    unfold resStatus
    split
    · simp only [Prog.run, Locals.one_marks, Locals.one_app, hs.status_ok, ne_eq, not_true_eq_false, if_false,
        Bool.false_eq_true, Locals.one_withApp, Locals.one_setMark, hs.status_last q _ bs cs cs']
      exact after_pos rest n m _
    split
    · simp only [Prog.run, Locals.one_marks, Locals.one_app, hs.status_ok, ne_eq, not_true_eq_false, if_false,
        Bool.false_eq_true, Locals.one_withApp, Locals.one_setMark, hs.status_last q _ bs cs cs']
      exact after_pos rest n m _
    · rename_i hcr hlf
      simp only [Prog.run, Locals.one_push, Option.map_some, after]
      refine ih (p := addRead 1 p) hp ?_ _ _ _ _
      simpa [hcr, hlf] using hrest

/-! ### Two calls and one -/

/-- A parser between two calls. -/
def Between (p : HttpParser) : Prop :=
  Consistent p .outer ⟨p.state == .s_header_field, p.state == .s_header_value, p.state.inUrl, false,
    p.state == .s_res_status⟩

/-- The marks set at the beginning of a read are those of the state. -/
theorem startMarks_matches (p : HttpParser) (a : A) :
    Locals.Matches ⟨startMarks p.state, a⟩ ⟨p.state == .s_header_field, p.state == .s_header_value,
      p.state.inUrl, false, p.state == .s_res_status⟩ := by
  intro m
  cases m <;> simp only [startMarks, MarkSet.has] <;> first | rfl | (split <;> simp_all)

/-- Where a run stands after its bytes is consistent. -/
theorem runBytes_between (hb : Between p) (bs : Bytes) (a : A) :
    (runBytes s bs p .outer ⟨startMarks p.state, a⟩).Good p.upgrade :=
  runBytes_good hb (startMarks_matches p a) fun h => h

/-- A call with some data is a run. -/
theorem execute_of_ok (hok : p.http_errno = .OK) {data : Bytes} (hdata : data ≠ []) (a : A) :
    http_parser_execute s p data a = executeLoop s data 0 p .outer ⟨startMarks p.state, a⟩ := by
  simp [http_parser_execute, hok, hdata]

/-- After an error nothing is done. -/
theorem execute_of_error (herr : p.http_errno ≠ .OK) (data : Bytes) (a : A) :
    http_parser_execute s p data a = ⟨0, p, a⟩ := by
  simp [http_parser_execute, herr]

/-- Only the mark `m` is set. -/
theorem Locals.eq_one {l : Locals A} {m : Mark} (h : ∀ m', m' ≠ m → l.marks m' = none) :
    l = .one m (l.marks m) l.app := by
  obtain ⟨marks, app⟩ := l
  simp only [Locals.one, Locals.mk.injEq, and_true]
  funext m'
  split
  · subst m'
    rfl
  · exact h m' ‹_›

/-- The marks in a state that has none of its own: at most that of the body. -/
theorem eq_one_body {loop : Loop} {set : MarkSet} {l : Locals A} (hc : Consistent p loop set)
    (hm : l.Matches set) (hurl : p.state.inUrl = false) (hfield : p.state ≠ .s_header_field)
    (hvalue : p.state ≠ .s_header_value) (hstatus : p.state ≠ .s_res_status) :
    l = .one .body (l.marks .body) l.app := by
  refine Locals.eq_one fun m hne => ?_
  have hset := hm m
  rw [hc.set_eq, hurl, beq_eq_false_iff_ne.mpr hfield, beq_eq_false_iff_ne.mpr hvalue,
    beq_eq_false_iff_ne.mpr hstatus] at hset
  cases m <;> simp_all [MarkSet.has]

/-- The mark of a reason phrase is the only one. -/
theorem eq_one_status {loop : Loop} {set : MarkSet} {l : Locals A} (hc : Consistent p loop set)
    (hm : l.Matches set) (hstatus : p.state = .s_res_status) :
    ∃ bs, l = .one .status (some bs) l.app := by
  have hbody : set.body = false := hc.not_body (by rw [hstatus]; nofun)
  rw [hc.set_eq, hbody, hstatus] at hm
  have hone : l = .one .status (l.marks .status) l.app := by
    refine Locals.eq_one fun m hne => ?_
    have hset := hm m
    cases m with
    | status => exact (hne rfl).elim
    | _ => exact Option.not_isSome_iff_eq_none.mp (by rw [hset]; nofun)
  have hset := hm .status
  obtain ⟨bs, hbs⟩ := Option.isSome_iff_exists.mp hset
  rw [hbs] at hone
  exact ⟨bs, hone⟩

/-- An inner loop runs in the state of a header name or value only. -/
theorem Consistent.outer {loop : Loop} {set : MarkSet} (hc : Consistent p loop set)
    (hfield : p.state ≠ .s_header_field) (hvalue : p.state ≠ .s_header_value) : loop = .outer := by
  cases loop with
  | outer => rfl
  | field k => exact (hfield hc.loop).elim
  | value k general => exact (hvalue hc.loop).elim

/-- A run that stands at a clean cut before `post`. -/
structure CleanAt (p : HttpParser) (loop : Loop) (l : Locals A) (post : Bytes) : Prop where
  inUrl : p.state.inUrl = false
  field : p.state ≠ .s_header_field
  value : p.state ≠ .s_header_value
  body : l.marks .body ≠ none → chunkEnds p post = true
  status : p.state = .s_res_status → statusFits p post = true
  marks : ∃ set, Consistent p loop set ∧ l.Matches set

/-- **The run up to a clean cut** stands there, or had an error. -/
theorem runBytes_cleanCut (hs : s.Cuttable) (hb : Between p) {pre post : Bytes}
    (hclean : cleanCut p pre post = true) (a : A) :
    match runBytes s pre p .outer ⟨startMarks p.state, a⟩ with
    | .next q loop l => CleanAt q loop l post
    | .exit q _ _ => q.http_errno ≠ .OK := by
  have hgood := runBytes_between (s := s) hb pre a
  have hagree : (runBytes s pre p .outer ⟨startMarks p.state, a⟩).Agrees
      (runBytes nullSettings pre p .outer ⟨startMarks p.state, ()⟩) :=
    runBytes_agrees hs.headersComplete rfl
  unfold cleanCut scan at hclean
  cases hscan : runBytes nullSettings pre p .outer ⟨startMarks p.state, ()⟩ with
  | next q' loop' l' =>
    rw [hscan] at hagree hclean
    cases hrun : runBytes s pre p .outer ⟨startMarks p.state, a⟩ with
    | next q loop l =>
      rw [hrun] at hgood hagree
      obtain ⟨rfl, rfl, hmarks⟩ := hagree
      simp only [Bool.and_eq_true, Bool.or_eq_true, Bool.not_eq_true', bne_iff_ne, ne_eq,
        Option.isNone_iff_eq_none, ← hmarks] at hclean
      obtain ⟨⟨⟨⟨h₁, h₂⟩, h₃⟩, h₄⟩, h₅⟩ := hclean
      exact ⟨h₁, h₂, h₃, fun h => h₄.resolve_left h, fun h => h₅.resolve_left fun hn => hn h, hgood.1⟩
    | exit q adv l =>
      rw [hrun] at hagree
      exact hagree
  | exit q' adv' l' =>
    rw [hscan] at hagree hclean
    cases hrun : runBytes s pre p .outer ⟨startMarks p.state, a⟩ with
    | next q loop l =>
      rw [hrun] at hagree
      exact hagree.elim
    | exit q adv l =>
      rw [hrun] at hagree
      rcases hagree with h | h
      · exact h
      · rw [h]
        simpa using hclean

/-- The call for the bytes after a clean cut goes on as the run does. -/
theorem CleanAt.sameEnd (hs : s.Cuttable) {loop : Loop} {l : Locals A} {post : Bytes}
    (hcut : CleanAt p loop l post) (hpost : post ≠ []) (n : Nat) :
    (endOfData s n p loop l).parser = p ∧
      SameEnd (http_parser_execute s p post (endOfData s n p loop l).app)
        (executeLoop s post n p loop l) := by
  obtain ⟨hurl, hfield, hvalue, hbody, hstatus, set, hc, hm⟩ := hcut
  obtain rfl := hc.outer hfield hvalue
  rw [execute_of_ok hc.ok hpost]
  by_cases hst : p.state = .s_res_status
  · obtain ⟨bs, hl⟩ := eq_one_status hc hm hst
    have hstart : ∀ a : A, (⟨startMarks p.state, a⟩ : Locals A) = .one .status (some []) a := by
      intro a
      simp only [Locals.one, Locals.mk.injEq, and_true]
      funext m
      cases m <;> simp [startMarks, hst, State.inUrl]
    rw [hl, endOfData_status hs, hstart]
    exact ⟨rfl, sameEnd_status hs post hst (hstatus hst) _ _ _ _ _ _⟩
  · have hl := eq_one_body hc hm hurl hfield hvalue hst
    have hstart : ∀ a : A, (⟨startMarks p.state, a⟩ : Locals A) = .one .body none a := by
      intro a
      simp only [Locals.one, Locals.mk.injEq, and_true]
      funext m
      cases m <;> simp [startMarks, hst, hurl, hfield, hvalue]
    cases hmark : l.marks .body with
    | none =>
      rw [hmark] at hl
      rw [hl, endOfData_none, hstart]
      exact ⟨rfl, executeLoop_pos post _ _ _ _ _⟩
    | some bs =>
      have hp : p.state.holdsBody = true := by
        refine hc.body ?_
        have := hm .body
        rw [hmark] at this
        exact this.symm
      rw [hmark] at hl
      rw [hl, endOfData_body hs, hstart]
      refine ⟨rfl, ?_⟩
      have := sameEnd_body hs post hp hc.chunk (hbody (by rw [hmark]; nofun)) none bs l.app 0 n
      simpa using this

/-- **Two calls do what one call does**, when the cut between their data is clean. -/
theorem execute_append (hs : s.Cuttable) (hb : Between p) {pre post : Bytes} (hpre : pre ≠ [])
    (hpost : post ≠ []) (hclean : cleanCut p pre post = true) (a : A) :
    SameEnd (http_parser_execute s (http_parser_execute s p pre a).parser post (http_parser_execute s p pre a).app)
      (http_parser_execute s p (pre ++ post) a) := by
  have hcut := runBytes_cleanCut hs hb hclean a
  rw [execute_of_ok hb.ok hpre, execute_of_ok hb.ok (List.append_ne_nil_of_left_ne_nil hpre post),
    executeLoop_append]
  cases hrun : runBytes s pre p .outer ⟨startMarks p.state, a⟩ with
  | next q loop l =>
    rw [hrun] at hcut
    obtain ⟨hpar, hsame⟩ := hcut.sameEnd hs hpost (0 + pre.length)
    rw [executeLoop_of_next hrun, hpar]
    exact hsame
  | exit q adv l =>
    rw [hrun] at hcut
    obtain ⟨hpar, -⟩ := executeLoop_of_exit (n := 0) hrun
    rw [execute_of_error (by rw [hpar]; exact hcut)]
    exact .rfl

/-! ### What a call leaves -/

/-- Telling the marks leaves the upgrade flag. -/
theorem flushMarks_upgrade (n : Nat) (ms : List Mark) (l : Locals A) :
    (flushMarks s n p ms l).parser.upgrade = p.upgrade := by
  induction ms generalizing l with
  | nil => rfl
  | cons m ms ih =>
    unfold flushMarks
    split
    · exact ih l
    · dsimp only
      split
      · rfl
      · exact ih _

/-- So does the end of the data. -/
theorem endOfData_upgrade (n : Nat) (loop : Loop) (l : Locals A) :
    (endOfData s n p loop l).parser.upgrade = p.upgrade := by
  cases loop with
  | outer => exact flushMarks_upgrade n _ l
  | field k | value k _ =>
    dsimp only [endOfData]
    split
    · rfl
    · exact flushMarks_upgrade n _ l

/-- An upgraded message stays upgraded in the next call. -/
theorem execute_upgrade (hb : Between p) {data : Bytes} (hdata : data ≠ []) (a : A)
    (hup : p.upgrade = true) : (http_parser_execute s p data a).parser.upgrade = true := by
  have hgood := runBytes_between (s := s) hb data a
  rw [execute_of_ok hb.ok hdata]
  cases hrun : runBytes s data p .outer ⟨startMarks p.state, a⟩ with
  | next q loop l =>
    rw [hrun] at hgood
    rw [executeLoop_of_next hrun, endOfData_upgrade]
    exact hgood.2 hup
  | exit q adv l =>
    rw [hrun] at hgood
    obtain ⟨h, -⟩ := executeLoop_of_exit (n := 0) hrun
    rw [h]
    exact hgood.2 hup

/-- Telling the marks counts no byte. -/
theorem flushMarks_parsed (n : Nat) (ms : List Mark) (l : Locals A) :
    (flushMarks s n p ms l).parsed = n := by
  induction ms generalizing l with
  | nil => rfl
  | cons m ms ih =>
    unfold flushMarks
    split
    · exact ih l
    · dsimp only
      split
      · rfl
      · exact ih _

/-- The end of the data, without an error, counts every byte. -/
theorem endOfData_parsed (n : Nat) (loop : Loop) (l : Locals A)
    (hok : (endOfData s n p loop l).parser.http_errno = .OK) : (endOfData s n p loop l).parsed = n := by
  cases loop with
  | outer => exact flushMarks_parsed n _ l
  | field k | value k _ =>
    dsimp only [endOfData] at hok ⊢
    split at hok
    · cases hok
    · rename_i hlt
      rw [if_neg hlt]
      exact flushMarks_parsed n _ l

/-- **A call without an error takes all the data**, unless another protocol follows in it. -/
theorem execute_parsed (hb : Between p) {data : Bytes} (hdata : data ≠ []) (a : A)
    (hok : (http_parser_execute s p data a).parser.http_errno = .OK)
    (hup : (http_parser_execute s p data a).parser.upgrade = false) :
    (http_parser_execute s p data a).parsed = data.length := by
  have hgood := runBytes_between (s := s) hb data a
  rw [execute_of_ok hb.ok hdata] at *
  cases hrun : runBytes s data p .outer ⟨startMarks p.state, a⟩ with
  | next q loop l =>
    rw [executeLoop_of_next hrun, Nat.zero_add] at *
    exact endOfData_parsed _ loop l hok
  | exit q adv l =>
    rw [hrun] at hgood
    obtain ⟨hpar, -⟩ := executeLoop_of_exit (n := 0) hrun
    rw [hpar] at hok hup
    rcases hgood.1 with h | h
    · exact (h hok).elim
    · rw [h.1] at hup
      cases hup

/-- A consistent parser is one between two calls. -/
theorem Consistent.between {loop : Loop} {set : MarkSet} (hc : Consistent p loop set) : Between p where
  ok := hc.ok
  url := rfl
  header_field := rfl
  header_value := rfl
  status := rfl
  body := nofun
  loop := trivial
  chunk := hc.chunk
  upgrade := hc.upgrade

/-- After a call that ends at a clean cut the parser is between two calls, or has an error. -/
theorem execute_between (hs : s.Cuttable) (hb : Between p) {pre post : Bytes} (hpre : pre ≠ [])
    (hpost : post ≠ []) (hclean : cleanCut p pre post = true) (a : A) :
    (http_parser_execute s p pre a).parser.http_errno = .OK →
      Between (http_parser_execute s p pre a).parser := by
  have hcut := runBytes_cleanCut hs hb hclean a
  rw [execute_of_ok hb.ok hpre]
  cases hrun : runBytes s pre p .outer ⟨startMarks p.state, a⟩ with
  | next q loop l =>
    rw [hrun] at hcut
    obtain ⟨hpar, -⟩ := hcut.sameEnd hs hpost (0 + pre.length)
    rw [executeLoop_of_next hrun, hpar]
    obtain ⟨set, hc, -⟩ := hcut.marks
    exact fun _ => hc.between
  | exit q adv l =>
    rw [hrun] at hcut
    obtain ⟨hpar, -⟩ := executeLoop_of_exit (n := 0) hrun
    rw [hpar]
    exact fun h => (hcut h).elim

/-- The parser at the start is one between two calls. -/
theorem between_init (t : HttpParserType) : Between (http_parser_init t) := by
  refine Consistent.between (consistent_plain (p := http_parser_init t) ?_ rfl nofun)
  cases t <;> rfl

/-! ### Fewer bytes after a cut -/

/-- A chunk that ends well with more bytes behind the cut does so with fewer. -/
theorem chunkEnds_of_append {post rest : Bytes} (h : chunkEnds p (post ++ rest) = true) :
    chunkEnds p post = true := by
  unfold chunkEnds at *
  split at h
  · by_cases hlt : p.content_length < post.length
    · simpa [List.getElem?_append_left hlt] using h
    · simp [List.getElem?_eq_none (Nat.le_of_not_lt hlt)]
  · cases post with
    | nil => rfl
    | cons c post => exact h
  · rfl

/-- A reason that fits with more bytes behind the cut fits with fewer. -/
theorem statusFits_of_append {post rest : Bytes} (h : statusFits p (post ++ rest) = true) :
    statusFits p post = true := by
  induction post generalizing p with
  | nil => rfl
  | cons c post ih =>
    simp only [List.cons_append, statusFits, Bool.and_eq_true, Bool.or_eq_true] at h ⊢
    obtain ⟨h₁, h₂⟩ := h
    exact ⟨h₁, h₂.imp_right ih⟩

/-- A clean cut stays clean when less of the data after it is looked at. -/
theorem cleanCut_of_append {pre post rest : Bytes} (h : cleanCut p pre (post ++ rest) = true) :
    cleanCut p pre post = true := by
  unfold cleanCut at *
  split at h
  · exact h
  · simp only [Bool.and_eq_true, Bool.or_eq_true] at h ⊢
    obtain ⟨⟨h₁, h₂⟩, h₃⟩ := h
    exact ⟨⟨h₁, h₂.imp_right chunkEnds_of_append⟩, h₃.imp_right statusFits_of_append⟩

end HttpParsing
end Wuchat
