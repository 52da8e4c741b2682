/-
# Lists in blocks

A list kept as a list of blocks of one length (`Uniform`), and what reading or replacing a
part of one block means for the whole list (`Uniform.flatten_set`,
`Uniform.take_drop_flatten`).
-/

import Mathlib.Data.List.Basic

namespace Wuchat
namespace Foundation

variable {α : Type}

/-- The elements from `p` on replaced by `ys`. -/
def splice (xs : List α) (p : Nat) (ys : List α) : List α := xs.take p ++ ys ++ xs.drop (p + ys.length)

/-- A splice inside a list leaves its length. -/
theorem length_splice {xs ys : List α} {p : Nat} (h : p + ys.length ≤ xs.length) :
    (splice xs p ys).length = xs.length := by
  simp only [splice, List.length_append, List.length_take, List.length_drop]
  omega

/-- A splice of nothing changes nothing. -/
@[simp] theorem splice_nil (xs : List α) (p : Nat) : splice xs p [] = xs := by
  simp [splice]

/-- A part replaced in the middle. -/
theorem splice_append {pre mid ys : List α} (post : List α) {p : Nat} (h : p + ys.length ≤ mid.length) :
    splice (pre ++ (mid ++ post)) (pre.length + p) ys = pre ++ (splice mid p ys ++ post) := by
  have htake : (pre ++ (mid ++ post)).take (pre.length + p) = pre ++ mid.take p := by
    rw [List.take_length_add_append, List.take_append_of_le_length (by omega)]
  have hdrop : (pre ++ (mid ++ post)).drop (pre.length + p + ys.length) =
      mid.drop (p + ys.length) ++ post := by
    rw [Nat.add_assoc, List.drop_length_add_append, List.drop_append_of_le_length h]
  rw [splice, splice, htake, hdrop]
  simp only [List.append_assoc]

/-- Two parts replaced that follow each other. -/
theorem splice_splice {xs ys zs : List α} {p : Nat} (h : p + ys.length ≤ xs.length) :
    splice (splice xs p ys) (p + ys.length) zs = splice xs p (ys ++ zs) := by
  have hlen : (xs.take p ++ ys).length = p + ys.length := by
    rw [List.length_append, List.length_take]
    omega
  have htake : (splice xs p ys).take (p + ys.length) = xs.take p ++ ys := by
    rw [splice, ← hlen, List.take_left]
  have hdrop : (splice xs p ys).drop (p + ys.length + zs.length) =
      xs.drop (p + (ys ++ zs).length) := by
    have hsum : p + ys.length + zs.length = (xs.take p ++ ys).length + zs.length := by rw [hlen]
    rw [hsum, splice, List.drop_length_add_append, List.drop_drop, List.length_append, Nat.add_assoc]
  rw [splice, htake, hdrop, splice]
  simp only [List.append_assoc]

/-- What is behind a list does not show in the part below its length. -/
theorem take_splice_append {xs ys : List α} (more : List α) {p n : Nat} (hp : p ≤ xs.length)
    (hn : n ≤ max xs.length (p + ys.length)) :
    (splice (xs ++ more) p ys).take n = (splice xs p ys).take n := by
  have hlen : (splice xs p ys).length = max xs.length (p + ys.length) := by
    simp only [splice, List.length_append, List.length_take, List.length_drop]
    omega
  have hsplice : splice (xs ++ more) p ys =
      splice xs p ys ++ more.drop (p + ys.length - xs.length) := by
    rw [splice, List.take_append_of_le_length hp, List.drop_append, ← List.append_assoc, splice]
  rw [hsplice, List.take_append_of_le_length (by omega)]

/-- Two parts that follow each other. -/
theorem take_drop_append (xs : List α) (p k m : Nat) :
    (xs.drop p).take k ++ (xs.drop (p + k)).take m = (xs.drop p).take (k + m) := by
  rw [← List.drop_drop, ← List.take_add]

/-- All blocks have the length `base`. -/
def Uniform (base : Nat) (blocks : List (List α)) : Prop := ∀ block ∈ blocks, block.length = base

variable {base : Nat} {blocks : List (List α)} {block ys : List α} {i p n : Nat}

/-- Blocks of one length hold as many elements as they are times it. -/
theorem Uniform.length_flatten (h : Uniform base blocks) : blocks.flatten.length = base * blocks.length := by
  induction blocks with
  | nil => rfl
  | cons block blocks ih =>
    rw [List.flatten_cons, List.length_append, h block List.mem_cons_self,
      ih fun b hb => h b (List.mem_cons_of_mem _ hb), List.length_cons, Nat.mul_succ, Nat.add_comm]

/-- More blocks of that length. -/
theorem Uniform.append {more : List (List α)} (h : Uniform base blocks) (hmore : Uniform base more) :
    Uniform base (blocks ++ more) := by
  intro b hb
  rcases List.mem_append.1 hb with hb | hb
  · exact h b hb
  · exact hmore b hb

/-- The blocks are determined by the list. -/
theorem Uniform.flatten_inj (hbase : 0 < base) : ∀ {blocks more : List (List α)}, Uniform base blocks →
    Uniform base more → blocks.flatten = more.flatten → blocks = more
  | [], [], _, _, _ => rfl
  | [], block :: _, _, hmore, heq => by
    have hlen := congrArg List.length heq
    rw [List.flatten_cons, List.length_append, hmore block List.mem_cons_self] at hlen
    simp only [List.flatten_nil, List.length_nil] at hlen
    omega
  | block :: _, [], hblocks, _, heq => by
    have hlen := congrArg List.length heq
    rw [List.flatten_cons, List.length_append, hblocks block List.mem_cons_self] at hlen
    simp only [List.flatten_nil, List.length_nil] at hlen
    omega
  | block :: blocks, block' :: more, hblocks, hmore, heq => by
    rw [List.flatten_cons, List.flatten_cons] at heq
    have hlen : block.length = block'.length := by
      rw [hblocks block List.mem_cons_self, hmore block' List.mem_cons_self]
    obtain ⟨rfl, hrest⟩ := List.append_inj heq hlen
    rw [Uniform.flatten_inj hbase (fun b hb => hblocks b (List.mem_cons_of_mem _ hb))
      (fun b hb => hmore b (List.mem_cons_of_mem _ hb)) hrest]

/-- A block has blocks before it and after it. -/
theorem Uniform.split (h : Uniform base blocks) (hi : blocks[i]? = some block) :
    ∃ pre post, blocks = pre ++ block :: post ∧ pre.length = i ∧ pre.flatten.length = base * i := by
  obtain ⟨hlt, rfl⟩ := List.getElem?_eq_some_iff.1 hi
  have hlen : (blocks.take i).length = i := by
    rw [List.length_take]
    omega
  have hpre : Uniform base (blocks.take i) := fun b hb => h b (List.mem_of_mem_take hb)
  refine ⟨blocks.take i, blocks.drop (i + 1), ?_, hlen, by rw [hpre.length_flatten, hlen]⟩
  rw [List.getElem_cons_drop, List.take_append_drop]

/-- **A part of a block replaced** is that part of the whole list replaced. -/
theorem Uniform.flatten_set (h : Uniform base blocks) (hi : blocks[i]? = some block)
    (hp : p + ys.length ≤ base) :
    (blocks.set i (splice block p ys)).flatten = splice blocks.flatten (base * i + p) ys := by
  have hblock := h block (List.mem_of_getElem? hi)
  obtain ⟨pre, post, rfl, rfl, hpre⟩ := h.split hi
  rw [List.set_append_right _ _ (Nat.le_refl _), Nat.sub_self, List.set_cons_zero, List.flatten_append,
    List.flatten_cons, List.flatten_append, List.flatten_cons, ← hpre, splice_append _ (by omega)]

/-- A block replaced by one of that length. -/
theorem Uniform.set (h : Uniform base blocks) (hblock : block.length = base) :
    Uniform base (blocks.set i block) := by
  intro b hb
  rcases List.mem_or_eq_of_mem_set hb with hb | rfl
  · exact h b hb
  · exact hblock

/-- **A part of a block** is that part of the whole list. -/
theorem Uniform.take_drop_flatten (h : Uniform base blocks) (hi : blocks[i]? = some block)
    (hp : p + n ≤ base) :
    (blocks.flatten.drop (base * i + p)).take n = (block.drop p).take n := by
  have hblock := h block (List.mem_of_getElem? hi)
  obtain ⟨pre, post, rfl, rfl, hpre⟩ := h.split hi
  rw [List.flatten_append, List.flatten_cons, ← hpre, List.drop_length_add_append,
    List.drop_append_of_le_length (by omega), List.take_append_of_le_length]
  rw [List.length_drop]
  omega

end Foundation
end Wuchat
