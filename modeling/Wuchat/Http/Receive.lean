/-
# Messages from a stream

`HttpSession::recvRequest` and `HttpConnection::recvResponse` are one loop around two parser
objects (`receiveLoop`), and the two parser objects do the same with the vendored parser
inside them (`Wraps`).  What happens to a message that comes in pieces with clean cuts is told
here for both: every piece is parsed to its end, and a turn of the loop either returns
the message or goes on with an empty buffer (`receiveLoop_turn`).
-/

import Mathlib.Data.Nat.Init
import Wuchat.Http.Pieces
import Wuchat.Streams.Stream

namespace Wuchat
namespace Http

open Foundation HttpParsing Streams

/-- A use of memory that is not there. -/
def fault {α : Type} : Act α := fun _ => .fault

/-- The loop of `recvRequest` and of `recvResponse`; `done` is what is done with a finished message. -/
def receiveLoop {M : Type} (execute : MessageParser M → Bytes → MessageParser M × Nat × Bytes) (done : M → M)
    (bufferSize : Nat) : Nat → MessageParser M → Bytes → Act (Option M)
  | 0, _, _ => fun _ => .hang
  | fuel + 1, parser, data => do
    match ← Link.read (bufferSize - data.length) with
    | none => fault
    | some got =>
      if got = [] then
        Link.close
        return none
      else
        let (parser, nparse, moved) := execute parser (data ++ got)
        let offset := (data ++ got).length - nparse
        if parser.error ≠ .OK then
          Link.close
          return none
        else if offset = bufferSize then
          Link.close
          return none
        else if parser.target.finished then
          return some (done parser.target.data)
        else receiveLoop execute done bufferSize fuel parser (moved.take offset)

/-- **A parser object around the vendored parser** with the callbacks `s`; `stops` are the parsers whose
message it gives up. -/
structure Wraps {M : Type} (execute : MessageParser M → Bytes → MessageParser M × Nat × Bytes)
    (s : Settings (Target M)) (stops : HttpParser → Bool) : Prop where
  parser : ∀ r data, (execute r data).1.parser = (http_parser_execute s r.parser data r.target).parser
  target : ∀ r data, (execute r data).1.target = (http_parser_execute s r.parser data r.target).app
  parsed : ∀ r data, (execute r data).2.1 = (http_parser_execute s r.parser data r.target).parsed
  error : ∀ r data, (execute r data).1.error = .OK ↔ r.error = .OK ∧ stops (execute r data).1.parser = false
  moved : ∀ r data, (execute r data).1.error = .OK →
    (execute r data).2.2.take (data.length - (execute r data).2.1) = data.drop (execute r data).2.1
  errno : ∀ p, stops p = false → p.http_errno = .OK

/-- What `HttpRequestParser` gives up. -/
def requestStops (p : HttpParser) : Bool := p.upgrade || p.http_errno ≠ .OK

/-- What `HttpResponseParser` gives up. -/
def responseStops (p : HttpParser) : Bool := p.http_errno ≠ .OK

/-- The bytes moved to the front are the ones not parsed. -/
theorem take_moved (data tail : Bytes) (n : Nat) : (data.drop n ++ tail).take (data.length - n) = data.drop n :=
  List.take_left' List.length_drop

/-- `execute` of a request's parser wraps `http_parser_execute`. -/
theorem wraps_request : Wraps HttpRequestParser.execute httpParserSettings1 requestStops where
  parser r data := by rw [HttpRequestParser.execute_fst]
  target r data := by rw [HttpRequestParser.execute_fst]
  parsed r data := by
    unfold HttpRequestParser.execute
    dsimp only
    split
    · rfl
    · split <;> rfl
  error r data := by
    rw [HttpRequestParser.execute_fst]
    generalize http_parser_execute httpParserSettings1 r.parser data r.target = e
    cases hup : e.parser.upgrade with
    | true => simp [requestStops, hup]
    | false => by_cases herr : e.parser.http_errno = .OK <;> simp [requestStops, hup, herr]
  moved r data hok := by
    unfold HttpRequestParser.execute at hok ⊢
    dsimp only at hok ⊢
    split at hok
    · cases hok
    · rename_i hup
      split at hok
      · rename_i herr
        exact (herr hok).elim
      · rename_i herr
        rw [if_neg hup, if_neg herr]
        exact take_moved data _ _
  errno p h := by
    rw [requestStops, Bool.or_eq_false_iff] at h
    simpa using h.2

/-- So does that of a response's. -/
theorem wraps_response : Wraps HttpResponseParser.execute httpParserSettings2 responseStops where
  parser r data := by rw [HttpResponseParser.execute_fst]
  target r data := by rw [HttpResponseParser.execute_fst]
  parsed r data := by
    unfold HttpResponseParser.execute
    dsimp only
    split <;> rfl
  error r data := by
    rw [HttpResponseParser.execute_fst]
    generalize http_parser_execute httpParserSettings2 r.parser data r.target = e
    by_cases herr : e.parser.http_errno = .OK <;> simp [responseStops, herr]
  moved r data hok := by
    unfold HttpResponseParser.execute at hok ⊢
    dsimp only at hok ⊢
    split at hok
    · rename_i herr
      exact (herr hok).elim
    · rename_i herr
      rw [if_neg herr]
      exact take_moved data _ _
  errno p h := by simpa [responseStops] using h

/-- What a read gets is the next bytes, at most as many as were asked for. -/
theorem read_bytes {size : Nat} {l l' : Link} {data : Bytes} (h : Link.read size l = .ok (some data) l') :
    data.length ≤ size ∧ l.input = data ++ l'.input := by
  unfold Link.read at h
  split at h
  · cases h
  split at h
  · cases h
    exact ⟨List.length_take_le _ _, (List.take_append_drop _ _).symm⟩
  · cases h
    refine ⟨?_, (List.take_append_drop _ _).symm⟩
    rw [List.length_take]
    omega
  · cases h

section Turns

variable {M : Type} {execute : MessageParser M → Bytes → MessageParser M × Nat × Bytes} {done : M → M}

/-- **A turn on a piece that is parsed to its end** returns the message when it is finished, and else
goes on with an empty buffer. -/
theorem receiveLoop_turn {size fuel : Nat} {r : MessageParser M} {piece : Bytes} {l l' : Link}
    (hread : Link.read size l = .ok (some piece) l') (hne : piece ≠ [])
    (hok : (execute r piece).1.error = .OK) (hparsed : (execute r piece).2.1 = piece.length) :
    receiveLoop execute done size (fuel + 1) r [] l =
      if (execute r piece).1.target.finished then .ok (some (done (execute r piece).1.target.data)) l'
      else receiveLoop execute done size fuel (execute r piece).1 [] l' := by
  have hle := (read_bytes hread).1
  have hpos : 0 < piece.length := List.length_pos_iff.mpr hne
  have hread' : Link.read (size - ([] : Bytes).length) l = .ok (some piece) l' := hread
  rw [receiveLoop, Act.bind_ok hread']
  rcases hexec : execute r piece with ⟨r', n, moved⟩
  rw [hexec] at hok hparsed
  obtain rfl : n = _ := hparsed
  dsimp only at hok ⊢
  rw [if_neg hne, List.nil_append, hexec]
  dsimp only
  rw [if_neg (not_not_intro hok), Nat.sub_self, if_neg (by omega), List.take_zero]
  split <;> rfl

/-- One piece after the other. -/
def feedAll (execute : MessageParser M → Bytes → MessageParser M × Nat × Bytes) (r : MessageParser M)
    (pieces : List Bytes) : MessageParser M :=
  pieces.foldl (fun r data => (execute r data).1) r

/-- The parser after one more piece. -/
theorem feedAll_next (r : MessageParser M) {pieces : List Bytes} {k : Nat} (hk : k < pieces.length) :
    (execute (feedAll execute r (pieces.take k)) pieces[k]).1 = feedAll execute r (pieces.take (k + 1)) := by
  rw [List.take_add_one, List.getElem?_eq_getElem hk, feedAll, feedAll, List.foldl_append]
  rfl

variable {s : Settings (Target M)} {stops : HttpParser → Bool} (hwraps : Wraps execute s stops)
include hwraps

/-- What has no error after all pieces had none before them. -/
theorem Wraps.ok_of_feedAll {r : MessageParser M} {pieces : List Bytes}
    (h : (feedAll execute r pieces).error = .OK) : r.error = .OK := by
  induction pieces generalizing r with
  | nil => exact h
  | cons data pieces ih => exact ((hwraps.error r data).mp (ih h)).1

variable {type : HttpParserType} {r₀ : MessageParser M} {pieces : List Bytes}
  (two : ∀ {pre data : Bytes}, pre ≠ [] → data ≠ [] → cleanCut (http_parser_init type) pre data = true →
    (execute (execute r₀ pre).1 data).1 = (execute r₀ (pre ++ data)).1)
  (hpieces : ∀ data ∈ pieces, data ≠ []) (hclean : CleanCuts (http_parser_init type) pieces)
include two hpieces hclean

omit hwraps in
/-- What was fed so far, in one piece. -/
theorem feedAll_take_succ {k : Nat} (hk : k < pieces.length) :
    feedAll execute r₀ (pieces.take (k + 1)) = (execute r₀ (pieces.take (k + 1)).flatten).1 :=
  foldl_take_of_cleanCuts two hpieces hclean hk

omit hwraps in
/-- The pieces, one after the other, are the message. -/
theorem feedAll_eq (hne : pieces ≠ []) : feedAll execute r₀ pieces = (execute r₀ pieces.flatten).1 :=
  foldl_of_cleanCuts two hpieces hclean hne

/-- **A message without an error has none after any of its pieces.** -/
theorem Wraps.feedAll_take_ok (hok : (execute r₀ pieces.flatten).1.error = .OK) (hne : pieces ≠ []) (k : Nat) :
    (feedAll execute r₀ (pieces.take k)).error = .OK := by
  have hall : (feedAll execute r₀ pieces).error = .OK := by
    rw [feedAll_eq two hpieces hclean hne]
    exact hok
  rw [← List.take_append_drop k pieces, feedAll, List.foldl_append] at hall
  exact hwraps.ok_of_feedAll hall

/-- **Before each of its pieces the vendored parser is between two calls.** -/
theorem Wraps.feedAll_between (hcut : s.Cuttable) (hstart : r₀.parser = http_parser_init type)
    (hok : (execute r₀ pieces.flatten).1.error = .OK) {k : Nat} (hk : k < pieces.length) :
    Between (feedAll execute r₀ (pieces.take k)).parser := by
  have hne : pieces ≠ [] := List.ne_nil_of_length_pos (Nat.zero_lt_of_lt hk)
  have hbefore := hwraps.feedAll_take_ok two hpieces hclean hok hne k
  cases k with
  | zero =>
    show Between r₀.parser
    rw [hstart]
    exact between_init type
  | succ k =>
    have hclean' := hclean (k + 1) hk (Nat.succ_pos k)
    rw [feedAll_take_succ two hpieces hclean (by omega)] at hbefore ⊢
    have herrno := hwraps.errno _ ((hwraps.error _ _).mp hbefore).2
    rw [hwraps.parser, hstart] at herrno ⊢
    refine execute_between hcut (between_init type) ?_ ?_ hclean' _ herrno
    · refine flatten_ne_nil (fun data h => hpieces data (List.mem_of_mem_take h)) ?_
      exact List.ne_nil_of_length_pos (by rw [List.length_take]; omega)
    · refine flatten_ne_nil (fun data h => hpieces data (List.mem_of_mem_drop h)) ?_
      exact List.ne_nil_of_length_pos (by rw [List.length_drop]; omega)

/-- **A piece is parsed to its end**, unless another protocol follows. -/
theorem Wraps.feedAll_parsed (hcut : s.Cuttable) (hstart : r₀.parser = http_parser_init type)
    (hok : (execute r₀ pieces.flatten).1.error = .OK) {k : Nat} (hk : k < pieces.length)
    (hup : (feedAll execute r₀ (pieces.take (k + 1))).parser.upgrade = false) :
    (execute (feedAll execute r₀ (pieces.take k)) pieces[k]).2.1 = pieces[k].length := by
  have hne : pieces ≠ [] := List.ne_nil_of_length_pos (Nat.zero_lt_of_lt hk)
  have hafter := hwraps.feedAll_take_ok two hpieces hclean hok hne (k + 1)
  have hbetween := hwraps.feedAll_between two hpieces hclean hcut hstart hok hk
  rw [← feedAll_next r₀ hk] at hafter hup
  have herrno := hwraps.errno _ ((hwraps.error _ _).mp hafter).2
  rw [hwraps.parser] at hup herrno
  rw [hwraps.parsed]
  exact execute_parsed hbetween (hpieces _ (List.getElem_mem hk)) _ herrno hup

/-- **No other protocol is asked for on the way**, or it would be in the end. -/
theorem Wraps.feedAll_plain (hcut : s.Cuttable) (hstart : r₀.parser = http_parser_init type)
    (hok : (execute r₀ pieces.flatten).1.error = .OK) (hne : pieces ≠ [])
    (hplain : (execute r₀ pieces.flatten).1.parser.upgrade = false) {k : Nat} (hk : k ≤ pieces.length) :
    (feedAll execute r₀ (pieces.take k)).parser.upgrade = false := by
  induction hk using Nat.decreasingInduction with
  | self =>
    rw [List.take_length, feedAll_eq two hpieces hclean hne]
    exact hplain
  | of_succ k hk ih =>
    rw [← Bool.not_eq_true]
    intro hup
    have hbetween := hwraps.feedAll_between two hpieces hclean hcut hstart hok hk
    have hkeep := execute_upgrade (s := s) hbetween (hpieces _ (List.getElem_mem hk))
      (feedAll execute r₀ (pieces.take k)).target hup
    rw [← feedAll_next r₀ hk, hwraps.parser] at ih
    exact absurd (ih.symm.trans hkeep) Bool.false_ne_true

end Turns

end Http
end Wuchat
