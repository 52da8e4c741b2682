/-
# The vendored HTTP parser: the names that are looked for

While a header name is read, the header state says how much of one of the words
`connection`, `content-length`, `transfer-encoding`, `upgrade` it spells (`Spells`), and at
its end it stands for a word only if the name is that word, in whatever case
(`spells_nameState`).  A name that is none of the last three leaves an `ordinary` state, in
which its value says nothing about the body.
-/

import Wuchat.HttpParser.Upgrade

namespace Wuchat
namespace HttpParsing

open Foundation Http

/-- The lower-case name `l` is what the header state and the index say of it.  Of `connection` and
`proxy-connection` nothing is said. -/
def Spells (l : Bytes) (hi : HeaderState × Nat) : Prop :=
  match hi.1 with
  | .h_general | .h_matching_connection | .h_matching_proxy_connection | .h_connection => True
  | .h_C => hi.2 = 0 ∧ l = (str "content-length").take 1
  | .h_CO => hi.2 = 1 ∧ l = (str "content-length").take 2
  | .h_CON => hi.2 = 2 ∧ l = (str "content-length").take 3
  | .h_matching_content_length => l = (str "content-length").take (hi.2 + 1)
  | .h_matching_transfer_encoding => l = (str "transfer-encoding").take (hi.2 + 1)
  | .h_matching_upgrade => l = (str "upgrade").take (hi.2 + 1)
  | .h_content_length => l = str "content-length"
  | .h_transfer_encoding => l = str "transfer-encoding"
  | .h_upgrade => l = str "upgrade"
  | _ => False

/-- A character that matches a word spells one more letter of it. -/
theorem take_append_of_getD {w l : Bytes} {i : Nat} {c : UInt8} (hl : l = w.take (i + 1)) (hc : c ≠ 0)
    (hw : w.getD (i + 1) 0 = c) : l ++ [c] = w.take (i + 2) ∧ i + 1 < w.length := by
  have hi : i + 1 < w.length := by
    refine Nat.lt_of_not_le fun hle => hc ?_
    rw [← hw, List.getD_eq_getElem?_getD, List.getElem?_eq_none hle]
    rfl
  rw [List.getD_eq_getElem?_getD, List.getElem?_eq_getElem hi, Option.getD_some] at hw
  refine ⟨?_, hi⟩
  rw [hl, ← hw]
  exact List.take_append_getElem hi

/-- A character of a name that is matched against the word `w`. -/
theorem spells_matchWord {w l : Bytes} {c : UInt8} {going all : HeaderState} {p : HttpParser}
    (hgoing : ∀ i, l ++ [c] = w.take (i + 2) → Spells (l ++ [c]) (going, i + 1))
    (hall : ∀ i, l ++ [c] = w → Spells (l ++ [c]) (all, i))
    (hl : l = w.take (p.index + 1)) (hc : c ≠ 0) :
    Spells (l ++ [c]) ((matchWord w c going .h_general all p).header_state,
      (matchWord w c going .h_general all p).index) := by
  dsimp only [matchWord]
  split
  · trivial
  · rename_i hmatch
    rw [not_or, Decidable.not_not] at hmatch
    obtain ⟨htake, hlen⟩ := take_append_of_getD hl hc hmatch.2
    split
    · rename_i hlast
      refine hall _ (htake.trans (List.take_of_length_le (by omega)))
    · exact hgoing _ htake

/-- **One more character of a name.** -/
theorem spells_fieldStep {l : Bytes} {hi : HeaderState × Nat} {ch c : UInt8}
    (hc : token ch = some c) (h : Spells l hi) :
    Spells (l ++ [c]) (fieldStep ch hi) := by
  have hc0 : c ≠ 0 := by
    rintro rfl
    revert ch
    exact @forall_byte _ (by decide +kernel)
  have hsp : ch ≠ chr ' ' := (token_isSome_ne (by rw [hc]; rfl)).1
  obtain ⟨st, i⟩ := hi
  unfold fieldStep
  rw [hc, Option.getD_some]
  cases st <;> dsimp only [fieldChar] <;> first
    | exact h.elim
    | trivial
    | (rw [if_pos hsp]; trivial)
    | skip
  case h_C =>
    obtain ⟨rfl, rfl⟩ := h
    split
    · rename_i heq
      exact ⟨rfl, by rw [heq]; decide⟩
    · trivial
  case h_CO =>
    obtain ⟨rfl, rfl⟩ := h
    split
    · rename_i heq
      exact ⟨rfl, by rw [heq]; decide⟩
    · trivial
  case h_CON =>
    obtain ⟨rfl, rfl⟩ := h
    split
    · trivial
    split
    · rename_i heq
      rw [heq]
      exact (by decide : (str "content-length").take 3 ++ [chr 't'] = (str "content-length").take 4)
    · trivial
  case h_matching_connection =>
    dsimp only [matchWord]
    split
    · trivial
    split <;> trivial
  case h_matching_proxy_connection =>
    dsimp only [matchWord]
    split
    · trivial
    split <;> trivial
  case h_matching_content_length => exact spells_matchWord (fun _ h => h) (fun _ h => h) h hc0
  case h_matching_transfer_encoding => exact spells_matchWord (fun _ h => h) (fun _ h => h) h hc0
  case h_matching_upgrade => exact spells_matchWord (fun _ h => h) (fun _ h => h) h hc0

/-- The first byte of a name spells its state. -/
theorem spells_firstHeaderState {c : UInt8} : Spells [c] (firstHeaderState c, 0) := by
  unfold firstHeaderState
  split
  · rename_i h
    exact ⟨rfl, by rw [h]; decide⟩
  split
  · trivial
  split
  · rename_i h
    rw [h]
    exact (by decide : [chr 't'] = (str "transfer-encoding").take 1)
  split
  · rename_i h
    rw [h]
    exact (by decide : [chr 'u'] = (str "upgrade").take 1)
  · trivial

/-- **The header state after a name stands for the word that was read.** -/
theorem spells_nameState {name : Bytes} (htok : ∀ ch ∈ name, (token ch).isSome = true) :
    Spells (name.map tolower) (nameState name) := by
  have hrest : ∀ (rest l : Bytes) (hi : HeaderState × Nat),
      (∀ ch ∈ rest, (token ch).isSome = true) → Spells l hi →
      Spells (l ++ rest.map tolower) (rest.foldl (fun hi ch => fieldStep ch hi) hi) := by
    intro rest
    induction rest with
    | nil =>
      intro l hi _ h
      rwa [List.map_nil, List.append_nil]
    | cons ch rest ih =>
      intro l hi hall h
      have hch := (token_tolower (hall ch List.mem_cons_self)).1
      rw [List.map_cons, List.append_cons]
      exact ih _ _ (fun c hc => hall c (List.mem_cons_of_mem _ hc)) (spells_fieldStep hch h)
  cases name with
  | nil => trivial
  | cons ch rest =>
    have hch := (token_tolower (htok ch List.mem_cons_self)).1
    have hfirst : Spells [tolower ch] (firstHeaderState ((token ch).getD 0), 0) := by
      rw [hch]
      exact spells_firstHeaderState
    exact hrest rest [tolower ch] _ (fun c hc => htok c (List.mem_cons_of_mem _ hc)) hfirst

/-- The header states after a name whose value says nothing about the body. -/
def HeaderState.ordinary : HeaderState → Bool
  | h_general | h_C | h_CO | h_CON | h_matching_connection | h_matching_proxy_connection
  | h_matching_content_length | h_matching_transfer_encoding | h_matching_upgrade | h_connection => true
  | _ => false

/-- **A name that is not one of the three words** is ordinary. -/
theorem ordinary_nameState {name : Bytes} (htok : ∀ ch ∈ name, (token ch).isSome = true)
    (hcl : name.map tolower ≠ str "content-length") (hte : name.map tolower ≠ str "transfer-encoding")
    (hup : name.map tolower ≠ str "upgrade") : (nameState name).1.ordinary = true := by
  have h := spells_nameState htok
  revert h
  generalize nameState name = hi
  obtain ⟨st, i⟩ := hi
  intro h
  cases st with
  | h_content_length => exact (hcl h).elim
  | h_transfer_encoding => exact (hte h).elim
  | h_upgrade => exact (hup h).elim
  | _ => first | rfl | exact h.elim

end HttpParsing
end Wuchat
