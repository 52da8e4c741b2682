/-
# What `Address::Lookup` asks for

`Lookup` splits a host string into a node and a service and passes both to
`getaddrinfo` as C strings.  The split has three stages: brackets around an
IPv6 address, a port after the only colon, and the whole string where neither
gave a node.  The service is a pointer into the string, and the second stage
sets it to the first colon before it knows whether that colon is the only one.
Of a bare IPv6 address the pointer stays: its node goes out with what follows
its first colon, and that colon, as the service (`arguments_bare`).

`arguments_iff`: of the strings that `Claimed` gives a pair, that pair is passed
unless the string has a NUL, is bare, or has something other than a port after
its brackets.
-/

import Wuchat.Net.Address
import Mathlib.Data.List.TakeWhile

namespace Wuchat
namespace Net

open Foundation

/-- `strchr(s, c)` as an offset into `s`: the C string ends at a NUL. -/
def strchr (s : Bytes) (c : UInt8) : Option Nat := (cstr s).findIdx? (· = c)

/-- `memchr(s, c, size)` as an offset into `s`. -/
def memchr (s : Bytes) (c : UInt8) : Option Nat := s.findIdx? (· = c)

namespace Lookup

/-- The first stage: what stands between brackets, and where the port after them
begins. -/
def bracketStage (host : Bytes) : Bytes × Option Nat :=
  if host.head? = some 91 then
    match strchr host 93 with
    | some endipv6 =>
      ((host.drop 1).take (endipv6 - 1), if host[endipv6 + 1]? = some 58 then some (endipv6 + 2) else none)
    | none => ([], none)
  else ([], none)

/-- The second stage, when there is no node yet. -/
def colonStage (host : Bytes) : Bytes × Option Nat :=
  match memchr host 58 with
  | some service =>
    if strchr (host.drop (service + 1)) 58 = none then (host.take service, some (service + 1))
    else ([], some service)
  | none => ([], none)

/-- The node and the service that `Lookup` passes to `getaddrinfo`, as C strings. -/
def arguments (host : Bytes) : Bytes × Option Bytes :=
  let first := bracketStage host
  let second := if first.1 = [] then colonStage host else first
  let node := if second.1 = [] then host else second.1
  (cstr node, second.2.map fun service => cstr (host.drop service))

/-- The pair that a host string stands for. -/
inductive Claimed : Bytes → Bytes × Option Bytes → Prop
  | port {n s : Bytes} (hn : n ≠ []) (hs : s ≠ []) (hcn : 58 ∉ n) (hcs : 58 ∉ s) (hopen : n.head? ≠ some 91) :
    Claimed (n ++ 58 :: s) (n, some s)
  | plain {n : Bytes} (hcn : 58 ∉ n) (hbrackets : ∀ v, v ≠ [] → 93 ∉ v → n ≠ 91 :: v ++ [93]) :
    Claimed n (n, none)
  | bracketPort {v s : Bytes} (hv : v ≠ []) (hcv : 93 ∉ v) : Claimed (91 :: v ++ 93 :: 58 :: s) (v, some s)
  | bracket {v : Bytes} (hv : v ≠ []) (hcv : 93 ∉ v) : Claimed (91 :: v ++ [93]) (v, none)
  | bare {h : Bytes} (hopen : h.head? ≠ some 91) (hcount : 2 ≤ h.count 58) : Claimed h (h, none)

/-- A string without an opening bracket that has two colons: a bare IPv6 address. -/
def Bare (host : Bytes) : Prop := host.head? ≠ some 91 ∧ 2 ≤ host.count 58

/-- A string without a colon that goes on after its brackets. -/
def Trailing (host : Bytes) : Prop :=
  58 ∉ host ∧ ∃ v rest, v ≠ [] ∧ 93 ∉ v ∧ rest ≠ [] ∧ host = 91 :: v ++ 93 :: rest

end Lookup

/-- C sees all of a string without a zero byte. -/
theorem cstr_of_notMem {s : Bytes} (h : 0 ∉ s) : cstr s = s := by
  rw [cstr, List.takeWhile_eq_self_iff]
  intro c hc
  simpa using fun h0 : c = 0 => h (h0 ▸ hc)

/-- C sees no zero byte. -/
theorem zero_notMem_cstr (s : Bytes) : 0 ∉ cstr s := fun h => by
  simpa using List.mem_takeWhile_imp h

/-- A byte is not found when it is nowhere. -/
theorem memchr_eq_none {s : Bytes} {c : UInt8} : memchr s c = none ↔ c ∉ s := by
  rw [memchr, List.findIdx?_eq_none_iff]
  simp only [decide_eq_false_iff_not]
  exact ⟨fun h hc => h c hc rfl, fun h x hx hxc => h (hxc ▸ hx)⟩

/-- It is found behind what does not have it. -/
theorem memchr_append {a : Bytes} {c : UInt8} (h : c ∉ a) (b : Bytes) : memchr (a ++ c :: b) c = some a.length := by
  have hnone : a.findIdx? (· = c) = none := memchr_eq_none.2 h
  rw [memchr, List.findIdx?_append, hnone, List.findIdx?_cons]
  simp

/-- On strings without a NUL `strchr` is `memchr`. -/
theorem strchr_of_notMem {s : Bytes} (h : 0 ∉ s) (c : UInt8) : strchr s c = memchr s c := by
  rw [strchr, cstr_of_notMem h, memchr]

namespace Lookup

/-- Brackets around something give it as the node. -/
theorem bracketStage_brackets {v : Bytes} (hcv : 93 ∉ v) (rest : Bytes) (h0 : 0 ∉ 91 :: v ++ 93 :: rest) :
    bracketStage (91 :: v ++ 93 :: rest) = (v, if rest.head? = some 58 then some (v.length + 3) else none) := by
  have hfind : strchr (91 :: v ++ 93 :: rest) 93 = some (v.length + 1) := by
    rw [strchr_of_notMem h0]
    exact memchr_append (a := 91 :: v) (by simpa using hcv) rest
  have hnext : (91 :: v ++ 93 :: rest)[v.length + 1 + 1]? = rest.head? := by
    rw [List.cons_append, List.getElem?_cons_succ, List.getElem?_append_right (by omega)]
    simp [List.head?_eq_getElem?]
  have hopen : (91 :: v ++ 93 :: rest).head? = some 91 := rfl
  rw [bracketStage, if_pos hopen, hfind]
  simp only [hnext]
  simp

/-- A host without a bracket is left to the colon. -/
theorem bracketStage_of_head {host : Bytes} (h : host.head? ≠ some 91) : bracketStage host = ([], none) := by
  rw [bracketStage, if_neg h]

/-- Without a closing bracket the first stage gives nothing. -/
theorem bracketStage_of_notMem {host : Bytes} (h0 : 0 ∉ host) (h : 93 ∉ host) : bracketStage host = ([], none) := by
  have hnone : strchr host 93 = none := by rw [strchr_of_notMem h0, memchr_eq_none.2 h]
  rw [bracketStage, hnone]
  simp

/-- A host without a colon has no port. -/
theorem colonStage_of_notMem {host : Bytes} (h : 58 ∉ host) : colonStage host = ([], none) := by
  rw [colonStage, memchr_eq_none.2 h]

/-- The only colon ends the node. -/
theorem colonStage_port {n s : Bytes} (h0 : 0 ∉ n ++ 58 :: s) (hcn : 58 ∉ n) (hcs : 58 ∉ s) :
    colonStage (n ++ 58 :: s) = (n, some (n.length + 1)) := by
  have h0s : 0 ∉ s := fun h => h0 (by simp [h])
  have hdrop : (n ++ 58 :: s).drop (n.length + 1) = s := by simp
  have hlast : strchr s 58 = none := by rw [strchr_of_notMem h0s, memchr_eq_none.2 hcs]
  rw [colonStage, memchr_append hcn]
  simp [hdrop, hlast]

/-- **Of a bare address the second stage leaves the first colon behind as the
service.** -/
theorem colonStage_bare {host : Bytes} (h0 : 0 ∉ host) (h : 2 ≤ host.count 58) :
    ∃ i, colonStage host = ([], some i) := by
  have hmem : 58 ∈ host := List.count_pos_iff.1 (by omega)
  obtain ⟨n, s, rfl, hcn⟩ := List.eq_append_cons_of_mem hmem
  have h0s : 0 ∉ s := fun h => h0 (by simp [h])
  have hcs : 58 ∈ s := by
    rw [List.count_append, List.count_eq_zero.2 hcn, List.count_cons_self] at h
    exact List.count_pos_iff.1 (by omega)
  have hdrop : (n ++ 58 :: s).drop (n.length + 1) = s := by simp
  have hmore : strchr s 58 ≠ none := by
    rw [strchr_of_notMem h0s, Ne, memchr_eq_none, not_not]
    exact hcs
  rw [colonStage, memchr_append hcn]
  simp only [hdrop, if_neg hmore]
  exact ⟨_, rfl⟩

/-- What is passed has no NUL in it. -/
theorem zero_notMem_arguments (host : Bytes) :
    0 ∉ (arguments host).1 ∧ ∀ s, (arguments host).2 = some s → 0 ∉ s := by
  refine ⟨zero_notMem_cstr _, fun s hs => ?_⟩
  obtain ⟨i, -, rfl⟩ := Option.map_eq_some_iff.1 hs
  exact zero_notMem_cstr _

/-- **A bare address goes out with a service.** -/
theorem arguments_bare {host : Bytes} (h0 : 0 ∉ host) (h : Bare host) : ∃ s, (arguments host).2 = some s := by
  obtain ⟨i, hi⟩ := colonStage_bare h0 h.2
  refine ⟨cstr (host.drop i), ?_⟩
  rw [arguments, bracketStage_of_head h.1]
  simp [hi]

/-- What follows the brackets is lost. -/
theorem arguments_trailing {v rest : Bytes} (h0 : 0 ∉ 91 :: v ++ 93 :: rest) (hv : v ≠ []) (hcv : 93 ∉ v)
    (hcolon : 58 ∉ rest) : arguments (91 :: v ++ 93 :: rest) = (v, none) := by
  have hhead : rest.head? ≠ some 58 := fun h => hcolon (List.mem_of_head? h)
  have h0v : 0 ∉ v := fun h => h0 (by simp [h])
  rw [arguments, bracketStage_brackets hcv rest h0]
  simp [hv, hhead, cstr_of_notMem h0v]

/-- **The pair that a string stands for is passed**, unless the string has a NUL,
is bare, or goes on after its brackets. -/
theorem arguments_of_claimed {host : Bytes} {pair : Bytes × Option Bytes} (h : Claimed host pair) (h0 : 0 ∉ host)
    (hbare : ¬Bare host) (htrailing : ¬Trailing host) : arguments host = pair := by
  cases h with
  | @port n s hn hs hcn hcs hopen =>
    have hopen' : (n ++ 58 :: s).head? ≠ some 91 := by
      obtain ⟨c, t, rfl⟩ := List.exists_cons_of_ne_nil hn
      exact hopen
    have h0n : 0 ∉ n := fun h => h0 (by simp [h])
    have h0s : 0 ∉ s := fun h => h0 (by simp [h])
    rw [arguments, bracketStage_of_head hopen']
    simp [colonStage_port h0 hcn hcs, hn, cstr_of_notMem h0n, cstr_of_notMem h0s]
  | plain hcn hbrackets =>
    have hwhole : bracketStage host = ([], none) → arguments host = (host, none) := fun hstage => by
      rw [arguments, hstage]
      simp [colonStage_of_notMem hcn, cstr_of_notMem h0]
    rcases host with _ | ⟨c, t⟩
    · exact hwhole rfl
    by_cases hopen : c = 91
    · subst hopen
      by_cases hclose : 93 ∈ t
      · obtain ⟨v, rest, rfl, hcv⟩ := List.eq_append_cons_of_mem hclose
        by_cases hv : v = []
        · -- nothing between the brackets: the first stage gives no node
          subst hv
          have hcolon : rest.head? ≠ some 58 := fun h => hcn (by simp [List.mem_of_head? h])
          refine hwhole ?_
          rw [← List.cons_append, bracketStage_brackets List.not_mem_nil rest h0, if_neg hcolon]
        · by_cases hrest : rest = []
          · subst hrest
            exact absurd rfl (hbrackets v hv hcv)
          · exact absurd ⟨hcn, v, rest, hv, hcv, hrest, rfl⟩ htrailing
      · exact hwhole (bracketStage_of_notMem h0 (by simpa using hclose))
    · exact hwhole (bracketStage_of_head (by simpa using hopen))
  | @bracketPort v s hv hcv =>
    have h0v : 0 ∉ v := fun h => h0 (by simp [h])
    have h0s : 0 ∉ s := fun h => h0 (by simp [h])
    have hdrop : (91 :: v ++ 93 :: 58 :: s).drop (v.length + 3) = s := by simp
    rw [arguments, bracketStage_brackets hcv _ h0]
    simp only [hv, if_false, List.head?_cons, if_true, Option.map_some, hdrop, cstr_of_notMem h0v,
      cstr_of_notMem h0s]
  | @bracket v hv hcv =>
    have h0v : 0 ∉ v := fun h => h0 (by simp [h])
    rw [arguments, bracketStage_brackets hcv [] h0]
    simp [hv, cstr_of_notMem h0v]
  | bare hopen hcount => exact absurd ⟨hopen, hcount⟩ hbare

/-- A pair without a NUL stands for strings without one. -/
theorem Claimed.zero_notMem {host : Bytes} {pair : Bytes × Option Bytes} (h : Claimed host pair) (h1 : 0 ∉ pair.1)
    (h2 : ∀ s, pair.2 = some s → 0 ∉ s) : 0 ∉ host := by
  cases h with
  | @port n s =>
    have hs := h2 s rfl
    simpa using ⟨h1, hs⟩
  | plain => exact h1
  | @bracketPort v s =>
    have hs := h2 s rfl
    simpa using ⟨h1, hs⟩
  | bracket => simpa using h1
  | bare => exact h1

/-- A bare address stands for itself without a service. -/
theorem Claimed.of_bare {host : Bytes} {pair : Bytes × Option Bytes} (h : Claimed host pair) (hbare : Bare host) :
    pair.2 = none := by
  obtain ⟨hhead, htwo⟩ := hbare
  cases h with
  | @port n s hn hs hcn hcs =>
    rw [List.count_append, List.count_cons_self, List.count_eq_zero.2 hcn, List.count_eq_zero.2 hcs] at htwo
    omega
  | bracketPort => exact absurd rfl hhead
  | plain | bracket | bare => rfl

/-- A string that goes on after its brackets stands for itself. -/
theorem Claimed.of_trailing {host : Bytes} {pair : Bytes × Option Bytes} (h : Claimed host pair)
    (htrailing : Trailing host) : pair = (host, none) := by
  obtain ⟨hcolon, v', rest, -, hcv', hrest, heq⟩ := htrailing
  cases h with
  | plain => rfl
  | bare => rfl
  | port => simp at hcolon
  | bracketPort => simp at hcolon
  | @bracket v hv hcv =>
    have hsplit : v ++ 93 :: [] = v' ++ 93 :: rest := List.cons.inj heq |>.2
    have hlen := congrArg (fun l => memchr l 93) hsplit
    simp only [memchr_append hcv, memchr_append hcv', Option.some.injEq] at hlen
    obtain ⟨-, htail⟩ := List.append_inj hsplit hlen
    exact absurd (List.cons.inj htail).2.symm hrest

/-- **Which host strings are split as they should be.** The pair that a string
stands for is passed exactly when the string has no NUL, is not bare, and does
not go on after its brackets. -/
theorem arguments_iff {host : Bytes} {pair : Bytes × Option Bytes} (h : Claimed host pair) :
    arguments host = pair ↔ 0 ∉ host ∧ ¬Bare host ∧ ¬Trailing host := by
  constructor
  · intro hpair
    have hnul := zero_notMem_arguments host
    rw [hpair] at hnul
    have h0 : 0 ∉ host := h.zero_notMem hnul.1 hnul.2
    refine ⟨h0, fun hbare => ?_, fun htrailing => ?_⟩
    · obtain ⟨s, hs⟩ := arguments_bare h0 hbare
      rw [hpair, h.of_bare hbare] at hs
      cases hs
    · have hwhole := hpair.trans (h.of_trailing htrailing)
      obtain ⟨hcolon, v, rest, hv, hcv, -, rfl⟩ := htrailing
      rw [arguments_trailing h0 hv hcv (by simp at hcolon; simp [hcolon])] at hwhole
      have hlen := congrArg (fun p => p.1.length) hwhole
      simp at hlen
      omega
  · rintro ⟨h0, hbare, htrailing⟩
    exact arguments_of_claimed h h0 hbare htrailing

/-- The statement at `localhost:80`. -/
theorem arguments_iff_localhost : Claimed (str "localhost:80") (str "localhost", some (str "80")) ∧
    (arguments (str "localhost:80") = (str "localhost", some (str "80")) ↔
      0 ∉ str "localhost:80" ∧ ¬Bare (str "localhost:80") ∧ ¬Trailing (str "localhost:80")) :=
  have h : Claimed (str "localhost" ++ 58 :: str "80") (str "localhost", some (str "80")) :=
    .port (by decide) (by decide) (by decide) (by decide) (by decide)
  ⟨h, arguments_iff h⟩

/-- Of `fe80::1` the node is whole, and what follows its first colon is the service. -/
theorem arguments_link_local : Claimed (str "fe80::1") (str "fe80::1", none) ∧
    arguments (str "fe80::1") = (str "fe80::1", some (str "::1")) ∧
    arguments (str "fe80::1") ≠ (str "fe80::1", none) :=
  ⟨.bare (by decide) (by decide), by decide, by decide⟩

end Lookup

end Net
end Wuchat
