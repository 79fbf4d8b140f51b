import Mathlib

/-!
# Paths on a grid

A path goes from a point to a neighbour in every step, also across a corner.  A walk that is
given by its position after every number of steps visits the points of a path if its positions
are neighbours.  A coordinate that must change by as much as there are steps changes in every
step.
-/

namespace Charis.Lib

/-- Different points that touch, if only at a corner. -/
def Neighbours (p q : Int × Int) : Prop := p ≠ q ∧ |p.1 - q.1| ≤ 1 ∧ |p.2 - q.2| ≤ 1

/-- A point of the rectangle that two points span. -/
def InBox (a b p : Int × Int) : Prop :=
  (min a.1 b.1 ≤ p.1 ∧ p.1 ≤ max a.1 b.1) ∧ min a.2 b.2 ≤ p.2 ∧ p.2 ≤ max a.2 b.2

/-- The points of a path from one point to another in a number of steps. -/
structure IsPath (start finish : Int × Int) (steps : Nat) (points : List (Int × Int)) : Prop where
  length : points.length = steps + 1
  start : points.head? = some start
  finish : points.getLast? = some finish
  connected : points.IsChain Neighbours

section Walks

variable {α : Type} {walk : Nat → α} {steps : Nat}

/-- The positions of a walk, the one before the first step included. -/
def visited (walk : Nat → α) (steps : Nat) : List α := (List.range (steps + 1)).map walk

theorem length_visited (walk : Nat → α) (steps : Nat) : (visited walk steps).length = steps + 1 := by
  rw [visited, List.length_map, List.length_range]

theorem mem_visited {position : α} :
    position ∈ visited walk steps ↔ ∃ k ≤ steps, walk k = position := by
  simp only [visited, List.mem_map, List.mem_range, Nat.lt_succ_iff]

theorem visited_eq_cons (walk : Nat → α) (steps : Nat) :
    visited walk steps = walk 0 :: (List.range steps).map (fun k => walk (k + 1)) := by
  rw [visited, List.range_succ_eq_map, List.map_cons, List.map_map]
  rfl

theorem isPath_visited {walk : Nat → Int × Int} {start finish : Int × Int} :
    IsPath start finish steps (visited walk steps) ↔
      walk 0 = start ∧ walk steps = finish ∧ ∀ k < steps, Neighbours (walk k) (walk (k + 1)) := by
  have first : (visited walk steps).head? = some (walk 0) := by
    rw [visited_eq_cons]
    rfl
  have last : (visited walk steps).getLast? = some (walk steps) := by
    rw [visited, List.range_succ, List.map_append]
    exact List.getLast?_concat
  have chain : (visited walk steps).IsChain Neighbours ↔
      ∀ k < steps, Neighbours (walk k) (walk (k + 1)) := by
    rw [visited, List.isChain_map]
    exact List.isChain_range_succ _ steps
  constructor
  · intro path
    have start_is := path.start
    have finish_is := path.finish
    rw [first, Option.some_inj] at start_is
    rw [last, Option.some_inj] at finish_is
    exact ⟨start_is, finish_is, chain.mp path.connected⟩
  · rintro ⟨rfl, rfl, connected⟩
    exact ⟨length_visited walk steps, first, last, chain.mpr connected⟩

end Walks

section Distances

variable {place : Nat → Int} {steps : Nat}

theorem distance_le (slow : ∀ k < steps, |place (k + 1) - place k| ≤ 1) {k l : Nat}
    (order : k ≤ l) (inside : l ≤ steps) : |place l - place k| ≤ (l : Int) - k := by
  induction l, order using Nat.le_induction with
  | base => simp
  | succ l order ih =>
      have before := ih (Nat.le_of_succ_le inside)
      have next := slow l inside
      rw [abs_le] at before next ⊢
      push_cast
      omega

/-- A coordinate that covers as much as there are steps changes in every step. -/
theorem ne_of_distance (slow : ∀ k < steps, |place (k + 1) - place k| ≤ 1)
    (far : (steps : Int) ≤ |place steps - place 0|) {k : Nat} (inside : k < steps) :
    place (k + 1) ≠ place k := by
  intro still
  have before := distance_le slow (Nat.zero_le k) (Nat.le_of_lt inside)
  have after := distance_le slow inside (Nat.le_refl steps)
  rw [still] at after
  rw [abs_le] at before after
  rw [le_abs] at far
  push_cast at after
  omega

end Distances

end Charis.Lib
