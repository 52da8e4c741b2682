/-
# The text of an IPv6 address

`IPv6Address::dump` prints the eight groups in one pass.  Groups that are zero
are passed over until the first other group after one of them, which prints the
`::` of the run it ends; from there on zeros are printed too, and a run that
nothing ended is printed after the loop.  So the groups up to the first zero and
those after its run are printed in full, with `::` between them
(`dumpGroups_run`).

`address?` reads the text of an address by RFC 4291: eight groups of one to four
hexadecimal digits, or fewer around one `::` that stands for the missing zeros.
`dump_denotes`: it reads what is printed back as the eight groups.
-/

import Wuchat.Net.Address
import Wuchat.Http.Message

namespace Wuchat
namespace Net

open Foundation
open Http (decimal)

/-- A number as `std::hex` prints it. -/
def hex (n : Nat) : Bytes := (Nat.toDigits 16 n).map fun c => UInt8.ofNat c.toNat

namespace IPv6Address

/-- `((uint16_t *) s6_addr)[i]`. -/
def word (bs : Vector UInt8 16) (i : Fin 8) : UInt16 := UInt16.ofNat (leValue [bs[2 * i.val], bs[2 * i.val + 1]])

/-- The loop of `dump` from a group on: what it prints, and `used_zeros` at its
end. `prev` is the group before, none at the first one. -/
def dumpLoop : List UInt16 → Option UInt16 → Bool → Bytes × Bool
  | [], _, used_zeros => ([], used_zeros)
  | g :: gs, prev, used_zeros =>
    if g = 0 ∧ used_zeros = false then dumpLoop gs (some g) used_zeros
    else
      let marks : Bool := prev = some 0 ∧ used_zeros = false
      let rest := dumpLoop gs (some g) (used_zeros || marks)
      ((if marks then str ":" else []) ++ (if prev.isSome then str ":" else []) ++
        hex (byteSwapOnLittleEndian16 g).toNat ++ rest.1, rest.2)

/-- What `dump` prints between the brackets. -/
def dumpGroups (gs : List UInt16) : Bytes :=
  let loop := dumpLoop gs none false
  loop.1 ++ if loop.2 = false ∧ gs.getLast? = some 0 then str "::" else []

/-- `IPv6Address::insert`: the address in text. -/
def dump (a : IPv6Address) : Bytes :=
  str "[" ++ dumpGroups ((List.finRange 8).map (word a.m_addr.s6_addr)) ++ str "]:" ++ decimal a.getPort.toNat

/-- The eight groups of the address. -/
def groups (a : IPv6Address) : List Nat :=
  (List.finRange 8).map fun i =>
    256 * a.m_addr.s6_addr[2 * i.val].toNat + a.m_addr.s6_addr[2 * i.val + 1].toNat

end IPv6Address

/-- The value of a hexadecimal digit. -/
def digit? (c : UInt8) : Option Nat :=
  if 48 ≤ c ∧ c ≤ 57 then some (c.toNat - 48)
  else if 65 ≤ c ∧ c ≤ 70 then some (c.toNat - 55)
  else if 97 ≤ c ∧ c ≤ 102 then some (c.toNat - 87)
  else none

/-- The value of hexadecimal digits after those of `v`. -/
def digitsFrom? (v : Nat) : Bytes → Option Nat
  | [] => some v
  | c :: s => (digit? c).bind fun d => digitsFrom? (16 * v + d) s

/-- A group: one to four hexadecimal digits. -/
def group? (s : Bytes) : Option Nat := if 1 ≤ s.length ∧ s.length ≤ 4 then digitsFrom? 0 s else none

/-- Groups with a colon between any two; no text is no groups. -/
def groups? (s : Bytes) : Option (List Nat) := if s = [] then some [] else (s.splitOn 58).mapM group?

/-- The text before the first `::` and the text after it. -/
def cutDouble : Bytes → Option (Bytes × Bytes)
  | [] => none
  | [_] => none
  | c :: d :: s => if c = 58 ∧ d = 58 then some ([], s) else (cutDouble (d :: s)).map fun t => (c :: t.1, t.2)

/-- The eight groups of the text of an address, by RFC 4291. -/
def address? (s : Bytes) : Option (List Nat) :=
  match cutDouble s with
  | none => (groups? s).filter fun gs => gs.length = 8
  | some (l, r) => do
    let before ← groups? l
    let after ← groups? r
    if before.length + after.length < 8 then
      some (before ++ List.replicate (8 - before.length - after.length) 0 ++ after)
    else none

/-- The number of places where a text has `::`. -/
def doubles : Bytes → Nat
  | [] => 0
  | [_] => 0
  | c :: d :: s => (if c = 58 ∧ d = 58 then 1 else 0) + doubles (d :: s)

example : address? (str "fe80::215:5dff:fe88:d8a") = some [0xfe80, 0, 0, 0, 0x215, 0x5dff, 0xfe88, 0xd8a] := by
  decide

/-! ## Groups read back -/

/-- Groups with a colon between any two. -/
def joined (gs : List Nat) : Bytes := List.intercalate [58] (gs.map hex)

/-- Groups with a colon before each. -/
def colonized (gs : List Nat) : Bytes := gs.flatMap fun g => 58 :: hex g

/-- One group, then the others behind colons. -/
theorem joined_cons (g : Nat) (gs : List Nat) : joined (g :: gs) = hex g ++ colonized gs := by
  induction gs generalizing g with
  | nil => simp [joined, colonized]
  | cons g' gs ih =>
    have hstep : joined (g :: g' :: gs) = hex g ++ [58] ++ joined (g' :: gs) := by
      simp [joined, List.intercalate_cons_cons]
    rw [hstep, ih, colonized, colonized, List.flatMap_cons]
    simp

/-- Some digits, then others. -/
theorem digitsFrom?_append (v : Nat) (s t : Bytes) :
    digitsFrom? v (s ++ t) = (digitsFrom? v s).bind fun w => digitsFrom? w t := by
  induction s generalizing v with
  | nil => rfl
  | cons c s ih =>
    rw [List.cons_append, digitsFrom?, digitsFrom?, Option.bind_assoc]
    exact congrArg _ (funext fun d => ih _)

/-- A number below 16 is one digit. -/
theorem hex_of_lt {n : Nat} (h : n < 16) : hex n = [UInt8.ofNat n.digitChar.toNat] := by
  rw [hex, Nat.toDigits_of_lt_base h]
  rfl

/-- A greater one is its quotient's digits and one more. -/
theorem hex_of_le {n : Nat} (h : 16 ≤ n) : hex n = hex (n / 16) ++ hex (n % 16) := by
  rw [hex_of_lt (Nat.mod_lt n (by decide)), hex, Nat.toDigits_of_base_le (by decide) h, List.map_append]
  rfl

/-- A digit is read back. -/
theorem digit?_digitChar {n : Nat} (h : n < 16) : digit? (UInt8.ofNat n.digitChar.toNat) = some n := by
  have hall : ∀ k : Fin 16, digit? (UInt8.ofNat k.val.digitChar.toNat) = some k.val := by decide
  exact hall ⟨n, h⟩

/-- **A number is read back from what `std::hex` prints.** -/
theorem digitsFrom?_hex (n : Nat) : digitsFrom? 0 (hex n) = some n := by
  induction n using Nat.strongRecOn with
  | ind n ih =>
    by_cases h : n < 16
    · rw [hex_of_lt h, digitsFrom?, digit?_digitChar h]
      simp [digitsFrom?]
    · have hmod : n % 16 < 16 := Nat.mod_lt n (by decide)
      rw [hex_of_le (by omega), digitsFrom?_append, ih (n / 16) (by omega), Option.bind_some, hex_of_lt hmod,
        digitsFrom?, digit?_digitChar hmod, Option.bind_some, digitsFrom?, Nat.div_add_mod]

/-- A number that is read has digits only. -/
theorem isSome_digit? {v : Nat} {s : Bytes} (h : (digitsFrom? v s).isSome) : ∀ c ∈ s, (digit? c).isSome := by
  induction s generalizing v with
  | nil => simp
  | cons c s ih =>
    rw [digitsFrom?] at h
    cases hd : digit? c with
    | none =>
      rw [hd] at h
      cases h
    | some d =>
      rw [hd, Option.bind_some] at h
      simp only [List.mem_cons, forall_eq_or_imp, hd, Option.isSome_some, true_and]
      exact ih h

/-- No colon is in a group. -/
theorem colon_notMem_hex (n : Nat) : 58 ∉ hex n := fun h => by
  have hdigit := isSome_digit? (by rw [digitsFrom?_hex n]; rfl) 58 h
  exact absurd hdigit (by decide)

/-- A group has a digit at least. -/
theorem hex_ne_nil (n : Nat) : hex n ≠ [] := by
  simp [hex, Nat.toDigits_ne_nil]

/-- A group is read back. -/
theorem group?_hex {n : Nat} (h : n < 65536) : group? (hex n) = some n := by
  have hpos : 1 ≤ (hex n).length := List.length_pos_iff.2 (hex_ne_nil n)
  have hlen : (hex n).length ≤ 4 := by
    rw [hex, List.length_map]
    exact (Nat.length_toDigits_le_iff (by decide) (by decide)).2 h
  rw [group?, if_pos ⟨hpos, hlen⟩, digitsFrom?_hex]

/-- **Groups are read back from their text.** -/
theorem groups?_joined {gs : List Nat} (h : ∀ g ∈ gs, g < 65536) : groups? (joined gs) = some gs := by
  rcases gs with _ | ⟨g, gs⟩
  · rfl
  have hne : joined (g :: gs) ≠ [] := by
    rw [joined_cons]
    exact List.append_ne_nil_of_left_ne_nil (hex_ne_nil g) _
  have hsplit : (joined (g :: gs)).splitOn 58 = (g :: gs).map hex := by
    refine List.splitOn_intercalate 58 (fun l hl hmem => ?_) (by simp)
    obtain ⟨n, -, rfl⟩ := List.mem_map.mp hl
    exact colon_notMem_hex n hmem
  rw [groups?, if_neg hne, hsplit]
  generalize g :: gs = l at h
  induction l with
  | nil => rfl
  | cons g gs ih =>
    obtain ⟨hg, hgs⟩ := List.forall_mem_cons.mp h
    rw [List.map_cons, List.mapM_cons, group?_hex hg, ih hgs]
    rfl

/-! ## Cutting at the double colon -/

/-- A text without colons is before the cut. -/
theorem cutDouble_append {w : Bytes} (hw : 58 ∉ w) (t : Bytes) :
    cutDouble (w ++ t) = (cutDouble t).map fun c => (w ++ c.1, c.2) := by
  induction w with
  | nil => simp
  | cons c w ih =>
    rw [List.mem_cons, not_or] at hw
    have hc : c ≠ 58 := Ne.symm hw.1
    have hstep : cutDouble (c :: (w ++ t)) = (cutDouble (w ++ t)).map fun d => (c :: d.1, d.2) := by
      cases w ++ t with
      | nil => rfl
      | cons d s => rw [cutDouble, if_neg fun h => hc h.1]
    rw [List.cons_append, hstep, ih hw.2, Option.map_map]
    rfl

/-- A colon before a text that does not begin with one is before the cut. -/
theorem cutDouble_colon_hex (n : Nat) (t : Bytes) :
    cutDouble (58 :: (hex n ++ t)) = (cutDouble t).map fun c => (58 :: hex n ++ c.1, c.2) := by
  obtain ⟨d, w, hw⟩ := List.exists_cons_of_ne_nil (hex_ne_nil n)
  have hd : d ≠ 58 := fun h => colon_notMem_hex n (by rw [hw, h]; exact List.mem_cons_self)
  have hstep : cutDouble (58 :: (hex n ++ t)) = (cutDouble (hex n ++ t)).map fun c => (58 :: c.1, c.2) := by
    rw [hw, List.cons_append, cutDouble, if_neg fun h => hd h.2]
  rw [hstep, cutDouble_append (colon_notMem_hex n), Option.map_map]
  rfl

/-- Groups behind colons are before the double colon. -/
theorem cutDouble_colonized (gs : List Nat) (t : Bytes) :
    cutDouble (colonized gs ++ t) = (cutDouble t).map fun c => (colonized gs ++ c.1, c.2) := by
  induction gs with
  | nil => simp [colonized]
  | cons g gs ih =>
    have hcons : colonized (g :: gs) = 58 :: (hex g ++ colonized gs) := by simp [colonized]
    rw [hcons, List.cons_append, List.append_assoc, cutDouble_colon_hex, ih, Option.map_map]
    simp [Function.comp_def]

/-- **The groups before a text are before its cut.** -/
theorem cutDouble_joined (gs : List Nat) (t : Bytes) :
    cutDouble (joined gs ++ t) = (cutDouble t).map fun c => (joined gs ++ c.1, c.2) := by
  cases gs with
  | nil => simp [joined]
  | cons g gs =>
    rw [joined_cons, List.append_assoc, cutDouble_append (colon_notMem_hex g), cutDouble_colonized, Option.map_map]
    simp [Function.comp_def]

/-- Text without a colon has no double colon. -/
theorem doubles_append {w : Bytes} (hw : 58 ∉ w) (t : Bytes) : doubles (w ++ t) = doubles t := by
  induction w with
  | nil => rfl
  | cons c w ih =>
    rw [List.mem_cons, not_or] at hw
    have hstep : doubles (c :: (w ++ t)) = doubles (w ++ t) := by
      cases w ++ t with
      | nil => rfl
      | cons d s => rw [doubles, if_neg fun h => hw.1 h.1.symm, Nat.zero_add]
    rw [List.cons_append, hstep, ih hw.2]

/-- A colon before a group is single. -/
theorem doubles_colon_hex (n : Nat) (t : Bytes) : doubles (58 :: (hex n ++ t)) = doubles t := by
  obtain ⟨d, w, hw⟩ := List.exists_cons_of_ne_nil (hex_ne_nil n)
  have hd : d ≠ 58 := fun h => colon_notMem_hex n (by rw [hw, h]; exact List.mem_cons_self)
  have hstep : doubles (58 :: (hex n ++ t)) = doubles (hex n ++ t) := by
    rw [hw, List.cons_append, doubles, if_neg fun h => hd h.2, Nat.zero_add]
  rw [hstep, doubles_append (colon_notMem_hex n)]

/-- So are those of several groups. -/
theorem doubles_colonized (gs : List Nat) (t : Bytes) : doubles (colonized gs ++ t) = doubles t := by
  induction gs with
  | nil => rfl
  | cons g gs ih =>
    have hcons : colonized (g :: gs) = 58 :: (hex g ++ colonized gs) := by simp [colonized]
    rw [hcons, List.cons_append, List.append_assoc, doubles_colon_hex, ih]

/-- So are those between groups. -/
theorem doubles_joined (gs : List Nat) (t : Bytes) : doubles (joined gs ++ t) = doubles t := by
  cases gs with
  | nil => rfl
  | cons g gs =>
    rw [joined_cons, List.append_assoc, doubles_append (colon_notMem_hex g), doubles_colonized]

/-- **One `::` between groups is the only one.** -/
theorem doubles_compressed (l r : List Nat) : doubles (joined l ++ str "::" ++ joined r) = 1 := by
  rw [List.append_assoc, doubles_joined]
  cases r with
  | nil => rfl
  | cons g gs =>
    have hright : str "::" ++ joined (g :: gs) = 58 :: 58 :: (hex g ++ colonized gs) := by
      rw [joined_cons]
      rfl
    have hend := doubles_colonized gs []
    rw [List.append_nil] at hend
    rw [hright, doubles, if_pos ⟨rfl, rfl⟩, doubles_colon_hex, hend]
    rfl

/-- **Groups around a `::` are read back with the zeros between them.** -/
theorem address?_compressed {l r : List Nat} {k : Nat} (hl : ∀ g ∈ l, g < 65536) (hr : ∀ g ∈ r, g < 65536)
    (hk : 0 < k) (hlen : l.length + k + r.length = 8) :
    address? (joined l ++ str "::" ++ joined r) = some (l ++ List.replicate k 0 ++ r) := by
  have hcut : cutDouble (joined l ++ str "::" ++ joined r) = some (joined l, joined r) := by
    have hright : cutDouble (str "::" ++ joined r) = some ([], joined r) := rfl
    rw [List.append_assoc, cutDouble_joined, hright, Option.map_some, List.append_nil]
  have hk' : 8 - l.length - r.length = k := by omega
  rw [address?, hcut]
  simp only [groups?_joined hl, groups?_joined hr, Option.bind_eq_bind, Option.bind_some]
  rw [if_pos (by omega), hk']

/-- **Eight groups are read back.** -/
theorem address?_joined {gs : List Nat} (h : ∀ g ∈ gs, g < 65536) (hlen : gs.length = 8) :
    address? (joined gs) = some gs := by
  have hcut := cutDouble_joined gs []
  rw [List.append_nil] at hcut
  have hnone : cutDouble (joined gs) = none := by
    rw [hcut]
    rfl
  rw [address?, hnone]
  simp [groups?_joined h, hlen]

/-! ## What the loop prints -/

namespace IPv6Address

/-- The value that is printed of a group. -/
def printed (g : UInt16) : Nat := (byteSwapOnLittleEndian16 g).toNat

/-- A group that ends no run is printed after a colon, the first one without. -/
theorem dumpLoop_print {g : UInt16} {prev : Option UInt16} {used : Bool} (hg : ¬(g = 0 ∧ used = false))
    (hprev : ¬(prev = some 0 ∧ used = false)) (gs : List UInt16) :
    dumpLoop (g :: gs) prev used =
      ((if prev.isSome then str ":" else []) ++ hex (printed g) ++ (dumpLoop gs (some g) used).1,
        (dumpLoop gs (some g) used).2) := by
  have hmarks : decide (prev = some 0 ∧ used = false) = false := decide_eq_false hprev
  rw [dumpLoop, if_neg hg, hmarks]
  simp [printed]

/-- Once the `::` is out, every group is printed. -/
theorem dumpLoop_used (gs : List UInt16) (p : UInt16) :
    dumpLoop gs (some p) true = (colonized (gs.map printed), true) := by
  induction gs generalizing p with
  | nil => rfl
  | cons g gs ih =>
    rw [dumpLoop_print (by simp) (by simp), ih]
    rfl

/-- Groups that are not zero are printed. -/
theorem dumpLoop_nonzero {l : List UInt16} (hl : ∀ g ∈ l, g ≠ 0) {p : UInt16} (hp : p ≠ 0) (gs : List UInt16) :
    ∃ q, q ≠ 0 ∧ dumpLoop (l ++ gs) (some p) false =
      (colonized (l.map printed) ++ (dumpLoop gs (some q) false).1, (dumpLoop gs (some q) false).2) := by
  induction l generalizing p with
  | nil => exact ⟨p, hp, rfl⟩
  | cons g l ih =>
    obtain ⟨hg, hl'⟩ := List.forall_mem_cons.mp hl
    obtain ⟨q, hq, hrest⟩ := ih hl' hg
    refine ⟨q, hq, ?_⟩
    rw [List.cons_append, dumpLoop_print (by simp [hg]) (by simp [hp]), hrest]
    simp [colonized, str]

/-- Zeros are passed over while no `::` is out. -/
theorem dumpLoop_replicate (k : Nat) (gs : List UInt16) (prev : Option UInt16) :
    dumpLoop (List.replicate (k + 1) 0 ++ gs) prev false = dumpLoop gs (some 0) false := by
  induction k generalizing prev with
  | zero => rfl
  | succ k ih =>
    rw [List.replicate_succ, List.cons_append, dumpLoop, if_pos ⟨rfl, rfl⟩, ih]

/-- The group after a run of zeros prints its `::`. -/
theorem dumpLoop_ends_run {g : UInt16} (hg : g ≠ 0) (gs : List UInt16) :
    dumpLoop (g :: gs) (some 0) false = (str "::" ++ joined ((g :: gs).map printed), true) := by
  rw [dumpLoop, if_neg (fun h => hg h.1), List.map_cons, joined_cons]
  simp only [and_self, decide_true, Bool.or_true, dumpLoop_used]
  rfl

/-- What is printed of the groups up to the first zero. -/
theorem dumpLoop_start {l : List UInt16} (hl : ∀ g ∈ l, g ≠ 0) (gs : List UInt16) :
    ∃ prev, prev ≠ some 0 ∧ dumpLoop (l ++ gs) none false =
      (joined (l.map printed) ++ (dumpLoop gs prev false).1, (dumpLoop gs prev false).2) := by
  rcases l with _ | ⟨g, l⟩
  · exact ⟨none, nofun, rfl⟩
  obtain ⟨hg, hl'⟩ := List.forall_mem_cons.mp hl
  obtain ⟨q, hq, hrest⟩ := dumpLoop_nonzero hl' hg gs
  refine ⟨some q, fun h => hq (Option.some.inj h), ?_⟩
  rw [List.cons_append, dumpLoop_print (by simp [hg]) (by simp), hrest, List.map_cons, joined_cons]
  simp

/-- **Groups without a zero are printed in full.** -/
theorem dumpGroups_nonzero {gs : List UInt16} (h : ∀ g ∈ gs, g ≠ 0) :
    dumpGroups gs = joined (gs.map printed) := by
  obtain ⟨prev, -, hloop⟩ := dumpLoop_start h []
  have hlast : gs.getLast? ≠ some 0 := fun hl => h 0 (List.mem_of_getLast? hl) rfl
  rw [List.append_nil] at hloop
  rw [dumpGroups, hloop, if_neg fun hl => hlast hl.2]
  simp [dumpLoop]

/-- **The first run of zeros is printed as `::`** and the groups around it in full. -/
theorem dumpGroups_run {l : List UInt16} (hl : ∀ g ∈ l, g ≠ 0) (k : Nat) {r : List UInt16}
    (hr : r.head? ≠ some 0) : dumpGroups (l ++ (List.replicate (k + 1) 0 ++ r)) =
      joined (l.map printed) ++ str "::" ++ joined (r.map printed) := by
  obtain ⟨prev, -, hloop⟩ := dumpLoop_start hl (List.replicate (k + 1) 0 ++ r)
  rw [dumpGroups, hloop, dumpLoop_replicate]
  rcases r with _ | ⟨g, r⟩
  · -- the run goes to the end: the loop prints nothing of it
    have hlast : (l ++ (List.replicate (k + 1) (0 : UInt16) ++ [])).getLast? = some 0 := by
      simp [List.replicate_succ']
    rw [if_pos ⟨rfl, hlast⟩]
    simp [dumpLoop, joined]
  · have hg : g ≠ 0 := fun h => hr (by rw [h]; rfl)
    simp [dumpLoop_ends_run hg]

/-- The zeros that a list begins with. -/
theorem exists_zeros (gs : List UInt16) : ∃ k r, gs = List.replicate k 0 ++ r ∧ r.head? ≠ some 0 := by
  induction gs with
  | nil => exact ⟨0, [], rfl, nofun⟩
  | cons g gs ih =>
    by_cases hg : g = 0
    · obtain ⟨k, r, hgs, hr⟩ := ih
      exact ⟨k + 1, r, by rw [hg, hgs, List.replicate_succ, List.cons_append], hr⟩
    · exact ⟨0, g :: gs, rfl, by simpa using hg⟩

/-- A list is without zeros, or it has a first run of them. -/
theorem exists_run (gs : List UInt16) : (∀ g ∈ gs, g ≠ 0) ∨
    ∃ l k r, gs = l ++ (List.replicate (k + 1) 0 ++ r) ∧ (∀ g ∈ l, g ≠ 0) ∧ r.head? ≠ some 0 := by
  induction gs with
  | nil => exact .inl (by simp)
  | cons g gs ih =>
    by_cases hg : g = 0
    · obtain ⟨k, r, hgs, hr⟩ := exists_zeros gs
      exact .inr ⟨[], k, r, by rw [hg, hgs, List.replicate_succ]; rfl, by simp, hr⟩
    · rcases ih with hall | ⟨l, k, r, hgs, hl, hr⟩
      · exact .inl (List.forall_mem_cons.2 ⟨hg, hall⟩)
      · exact .inr ⟨g :: l, k, r, by rw [hgs, List.cons_append], List.forall_mem_cons.2 ⟨hg, hl⟩, hr⟩

/-- **Eight groups are read back from what is printed of them**, and there is at
most one `::`. -/
theorem address?_dumpGroups (gs : List UInt16) (hlen : gs.length = 8) :
    address? (dumpGroups gs) = some (gs.map printed) ∧ doubles (dumpGroups gs) ≤ 1 := by
  have hlt : ∀ l : List UInt16, ∀ n ∈ l.map printed, n < 65536 := fun l n hn => by
    obtain ⟨g, -, rfl⟩ := List.mem_map.mp hn
    exact (byteSwapOnLittleEndian16 g).toNat_lt
  rcases exists_run gs with hall | ⟨l, k, r, hgs, hl, hr⟩
  · have hdoubles := doubles_joined (gs.map printed) []
    rw [List.append_nil] at hdoubles
    rw [dumpGroups_nonzero hall, hdoubles]
    exact ⟨address?_joined (hlt gs) (by rw [List.length_map, hlen]), Nat.zero_le 1⟩
  · have hzero : printed 0 = 0 := by decide
    have hsum : (l.map printed).length + (k + 1) + (r.map printed).length = 8 := by
      rw [hgs] at hlen
      simp at hlen
      simp
      omega
    rw [hgs, dumpGroups_run hl k hr, doubles_compressed,
      address?_compressed (hlt l) (hlt r) (Nat.succ_pos k) hsum]
    simp [hzero]

/-- The two bytes of a group, the first one high. -/
theorem printed_word (bs : Vector UInt8 16) (i : Fin 8) :
    printed (word bs i) = 256 * bs[2 * i.val].toNat + bs[2 * i.val + 1].toNat := by
  have hpair : ∀ x y : UInt8, printed (UInt16.ofNat (leValue [x, y])) = 256 * x.toNat + y.toNat := by
    intro x y
    have hbytes : leBytes 2 (leValue [x, y]) = [x, y] := leBytes_leValue [x, y]
    have hlt : leValue [x, y] < 256 ^ 2 := leValue_lt [x, y]
    have hswap : byteSwap 2 (leValue [x, y]) = 256 * x.toNat + y.toNat := by
      rw [byteSwap, hbytes]
      simp only [List.reverse_cons, List.reverse_nil, List.nil_append, List.cons_append, leValue]
      omega
    have hx := x.toNat_lt
    have hy := y.toNat_lt
    have hword : (UInt16.ofNat (leValue [x, y])).toNat = leValue [x, y] := UInt16.toNat_ofNat_of_lt' hlt
    have hsize : 256 * x.toNat + y.toNat < UInt16.size := by
      rw [UInt16.size]
      omega
    rw [printed, byteSwapOnLittleEndian16, hword, hswap, UInt16.toNat_ofNat_of_lt' hsize]
  exact hpair _ _

/-- **The text of an IPv6 address denotes the address**: between the brackets
stands a text that is read as the eight groups and has at most one `::`, and
after the colon the port. -/
theorem dump_denotes (a : IPv6Address) :
    ∃ text, a.dump = str "[" ++ text ++ str "]:" ++ decimal a.getPort.toNat ∧ address? text = some a.groups ∧
      doubles text ≤ 1 := by
  have hread := address?_dumpGroups ((List.finRange 8).map (word a.m_addr.s6_addr)) (by simp)
  refine ⟨_, rfl, ?_, hread.2⟩
  rw [hread.1, groups, List.map_map]
  exact congrArg some (List.map_congr_left fun i _ => printed_word a.m_addr.s6_addr i)

end IPv6Address

end Net
end Wuchat
