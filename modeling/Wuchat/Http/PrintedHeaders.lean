/-
# Headers that are printed

`HttpRequest::dump` and `HttpResponse::dump` print a `connection` header of their own, then the
entries of `m_headers` without the headers that they print themselves, then the length of
the body if there is one.  No two of these lines have the same name (`Printed.pairwise`), so
that a map which is filled from the lines has the entries again (`Printed.mem_foldl`).
-/

import Mathlib.Algebra.GroupWithZero.Nat
import Wuchat.HttpParser.Basic
import Mathlib.Data.List.TakeWhile

namespace Wuchat
namespace Http

open Foundation HttpParsing

/-- A header line. -/
def line (e : Bytes × Bytes) : Bytes := e.1 ++ str ": " ++ e.2 ++ crlf

/-- The length of some header lines. -/
theorem length_flatMap_line (es : List (Bytes × Bytes)) :
    (es.flatMap line).length = (es.map fun e => e.1.length + e.2.length + 4).sum := by
  have hline : ∀ e, (line e).length = e.1.length + e.2.length + 4 := by
    intro e
    have h₁ : (str ": ").length = 2 := by decide
    have h₂ : crlf.length = 2 := by decide
    simp only [line, List.length_append, h₁, h₂]
    omega
  simp only [List.length_flatMap, hline]

/-- A name that is a token. -/
def IsToken (name : Bytes) : Prop := name ≠ [] ∧ ∀ ch ∈ name, (token ch).isSome = true

/-- Whether a name is a token can be computed. -/
instance (name : Bytes) : Decidable (IsToken name) := inferInstanceAs (Decidable (_ ∧ _))

/-- A value without line breaks, and without blanks at its ends. -/
def IsValue (value : Bytes) : Prop :=
  value ≠ [] ∧ CR ∉ value ∧ LF ∉ value ∧ (∀ ch ∈ value.head?, ch ≠ chr ' ' ∧ ch ≠ 9) ∧
    ∀ ch ∈ value.getLast?, ch ≠ chr ' ' ∧ ch ≠ 9

/-- Whether a value may be sent can be computed. -/
instance (value : Bytes) : Decidable (IsValue value) :=
  inferInstanceAs (Decidable (_ ∧ _ ∧ _ ∧ _ ∧ _))

/-- A token has no zero byte to be cut at. -/
theorem caseFold_of_isToken {name : Bytes} (h : IsToken name) : caseFold name = name.map tolower := by
  have hcstr : cstr name = name := by
    rw [cstr, List.takeWhile_eq_self_iff]
    intro ch hch
    refine decide_eq_true ?_
    rintro rfl
    exact absurd (h.2 0 hch) (by decide)
  rw [caseFold, hcstr]

/-- **What is printed of a map of headers**: `conn` and `len` are the lines of `connection` and of
`content-length`, if there are any, and `printed` the entries of the map that are printed. -/
structure Printed (headers : MapType) (conn printed len : List (Bytes × Bytes)) : Prop where
  ordered : headers.Pairwise fun a b => caseLess a.1 b.1 = true
  sub : printed.Sublist headers
  oneConnection : conn.Pairwise fun a b => caseFold a.1 ≠ caseFold b.1
  connection : ∀ e ∈ conn, caseFold e.1 = str "connection" ∧ ∀ e' ∈ printed, caseFold e'.1 ≠ str "connection"
  oneLength : len.Pairwise fun a b => caseFold a.1 ≠ caseFold b.1
  length : ∀ e ∈ len, caseFold e.1 = str "content-length"
  noLength : ∀ e ∈ headers, caseFold e.1 ≠ str "content-length"

/-- Two entries of a map do not have the same key. -/
theorem caseFold_ne_of_caseLess {a b : Bytes} (h : caseLess a b = true) :
    caseFold a ≠ caseFold b := by
  intro heq
  rw [caseLess, (strcasecmp_eq_zero_iff a b).mpr heq] at h
  exact absurd h (by decide)

variable {headers : MapType} {conn printed len : List (Bytes × Bytes)}

/-- **No two of the lines have the same name.** -/
theorem Printed.pairwise (h : Printed headers conn printed len) :
    (conn ++ printed ++ len).Pairwise fun a b => caseFold a.1 ≠ caseFold b.1 := by
  have hprinted : printed.Pairwise fun a b => caseFold a.1 ≠ caseFold b.1 :=
    (h.ordered.sublist h.sub).imp caseFold_ne_of_caseLess
  rw [List.pairwise_append, List.pairwise_append]
  refine ⟨⟨h.oneConnection, hprinted, ?_⟩, h.oneLength, ?_⟩
  · intro a ha b hb
    rw [(h.connection a ha).1]
    exact Ne.symm ((h.connection a ha).2 b hb)
  · intro a ha b hb
    rw [h.length b hb]
    rcases List.mem_append.mp ha with ha | ha
    · rw [(h.connection a ha).1]
      decide
    · exact h.noLength a (h.sub.subset ha)

/-- **A map filled from the lines** has the entries that were printed. -/
theorem Printed.mem_foldl (h : Printed headers conn printed len) {x : Bytes × Bytes}
    (hconn : caseFold x.1 ≠ str "connection") (hlength : caseFold x.1 ≠ str "content-length") :
    x ∈ (conn ++ printed ++ len).foldl (fun m e => OrdMap.set caseLess e.1 e.2 m) [] ↔ x ∈ printed := by
  rw [OrdMap.mem_foldl_set caseLess_keyed h.pairwise (fun e he => absurd he List.not_mem_nil),
    or_iff_right List.not_mem_nil, List.mem_append, List.mem_append]
  constructor
  · rintro ((hx | hx) | hx)
    · exact (hconn (h.connection x hx).1).elim
    · exact hx
    · exact (hlength (h.length x hx)).elim
  · exact fun hx => .inl (.inr hx)

end Http
end Wuchat
