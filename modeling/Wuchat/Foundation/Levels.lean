/-
# A queue whose elements put others in

A queue is worked through from its front, and every element puts others in at the end, its
children.  `drain` is the loop, with a bound on the number of its rounds: it gives the elements in the order
they come to the front, once the queue is empty.

The elements come level by level (`drain_iff`): those of the queue, then their children, then the children
of these.  The loop ends exactly when some level is empty.  Nothing is asked of the children: they may go on
for ever.
-/

import Mathlib.Tactic.TypeStar

namespace Wuchat
namespace Foundation

section Levels

variable {α : Type*} (children : α → List α)

/-- The elements in the order they come to the front, if the queue is empty after so many rounds. -/
def drain : Nat → List α → Option (List α)
  | _, [] => some []
  | 0, _ :: _ => none
  | fuel + 1, x :: queue => (drain fuel (queue ++ children x)).map (x :: ·)

/-- The elements that are so many generations after those of the queue. -/
def level : Nat → List α → List α
  | 0, queue => queue
  | n + 1, queue => level n (queue.flatMap children)

/-- The first generations, one after another. -/
def levels : Nat → List α → List α
  | 0, _ => []
  | n + 1, queue => queue ++ levels n (queue.flatMap children)

/-- Nothing is left to visit. -/
@[simp] theorem drain_nil (fuel : Nat) : drain children fuel [] = some [] := by
  cases fuel <;> rfl

/-- **The front part of a queue** is worked through first, and leaves its children at the end. -/
theorem drain_append (fuel : Nat) (front queue : List α) :
    drain children (front.length + fuel) (front ++ queue) =
      (drain children fuel (queue ++ front.flatMap children)).map (front ++ ·) := by
  induction front generalizing queue with
  | nil => simp
  | cons x front ih =>
    have hfuel : (x :: front).length + fuel = (front.length + fuel) + 1 := by
      rw [List.length_cons]
      omega
    rw [hfuel, List.cons_append, drain, List.append_assoc, ih, Option.map_map, List.flatMap_cons, ← List.append_assoc]
    rfl

/-- A queue takes a round for every element at least. -/
theorem length_le_of_drain {fuel : Nat} {queue visited : List α} (h : drain children fuel queue = some visited) :
    queue.length ≤ fuel := by
  induction fuel generalizing queue visited with
  | zero =>
    cases queue with
    | nil => exact Nat.le_refl 0
    | cons x queue => cases h
  | succ fuel ih =>
    cases queue with
    | nil => exact Nat.zero_le _
    | cons x queue =>
      obtain ⟨rest, hrest, -⟩ := Option.map_eq_some_iff.mp h
      have hle := ih hrest
      rw [List.length_append] at hle
      rw [List.length_cons]
      omega

/-- **One level**: a queue is worked through, and then its children. -/
theorem drain_level (fuel : Nat) (queue : List α) :
    drain children (queue.length + fuel) queue =
      (drain children fuel (queue.flatMap children)).map (queue ++ ·) := by
  simpa using drain_append children fuel queue []

/-- **A queue is worked through level by level**, and comes to its end exactly when some level is empty. -/
theorem drain_iff {queue visited : List α} :
    (∃ fuel, drain children fuel queue = some visited) ↔
      ∃ n, level children n queue = [] ∧ visited = levels children n queue := by
  constructor
  · rintro ⟨fuel, h⟩
    induction fuel using Nat.strongRecOn generalizing queue visited with
    | _ fuel ih =>
      cases queue with
      | nil =>
        rw [drain_nil] at h
        exact ⟨0, rfl, (Option.some.inj h).symm⟩
      | cons x queue =>
        obtain ⟨rest, hrest⟩ := Nat.exists_eq_add_of_le (length_le_of_drain children h)
        rw [hrest, drain_level] at h
        obtain ⟨later, hlater, rfl⟩ := Option.map_eq_some_iff.mp h
        have hless : rest < fuel := by
          rw [hrest, List.length_cons]
          omega
        obtain ⟨n, hend, rfl⟩ := ih rest hless hlater
        exact ⟨n + 1, hend, rfl⟩
  · rintro ⟨n, hend, rfl⟩
    induction n generalizing queue with
    | zero =>
      rw [level] at hend
      rw [hend]
      exact ⟨0, rfl⟩
    | succ n ih =>
      obtain ⟨fuel, hfuel⟩ := ih hend
      exact ⟨queue.length + fuel, by rw [drain_level, hfuel]; rfl⟩

end Levels

end Foundation
end Wuchat
