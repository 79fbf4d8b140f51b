import Mathlib

/-!
# Edges of a signal

A signal goes from level to level.  An edge is the level that it goes to, and a list of edges is
that of a signal if each of them goes to another level than the one before.
-/

namespace Charis.Lib.Signal

variable {α : Type*} {start after : α} {edges earlier : List α}

/-- Each edge goes to a level that the signal does not have. -/
def Alternates (start : α) (edges : List α) : Prop := (start :: edges).IsChain (· ≠ ·)

/-- The level after some edges. -/
def level (start : α) (edges : List α) : α := edges.getLastD start

@[simp] theorem level_concat : level start (edges ++ [after]) = after := List.getLastD_concat

theorem alternates_nil : Alternates start [] := List.isChain_singleton start

theorem Alternates.of_earlier (alternates : Alternates start edges) (early : earlier <+: edges) :
    Alternates start earlier := by
  obtain ⟨later, rfl⟩ := early
  rw [Alternates, ← List.cons_append] at alternates
  exact alternates.left_of_append

theorem Alternates.concat (alternates : Alternates start edges)
    (changes : level start edges ≠ after) : Alternates start (edges ++ [after]) := by
  rw [Alternates, ← List.cons_append]
  apply List.IsChain.append alternates (List.isChain_singleton after)
  intro last isLast first isFirst
  cases isFirst
  rw [List.getLast?_cons, Option.mem_some_iff] at isLast
  rwa [← isLast, ← List.getLastD_eq_getLast?]

variable [DecidableEq α]

/-- The edge from one level to another, if they are different. -/
def edge (before after : α) : List α := if before = after then [] else [after]

theorem level_append_edge : level start (edges ++ edge (level start edges) after) = after := by
  rw [edge]
  split
  next same =>
    rw [List.append_nil]
    exact same
  next => exact level_concat

theorem Alternates.append_edge (alternates : Alternates start edges) :
    Alternates start (edges ++ edge (level start edges) after) := by
  rw [edge]
  split
  · rwa [List.append_nil]
  next changes => exact alternates.concat changes

/-- Of an edge nothing is lost if the signal gets to its level. -/
theorem eq_nil_of_level {taken lost : List α}
    (parts : edges ++ taken ++ lost = edges ++ edge (level start edges) after)
    (reached : level start (edges ++ taken) = after) : lost = [] := by
  rw [List.append_assoc, List.append_cancel_left_eq, edge] at parts
  split at parts
  · exact (List.append_eq_nil_iff.mp parts).2
  next changes =>
    rcases List.append_eq_singleton_iff.mp parts with ⟨rfl, -⟩ | ⟨-, none⟩
    · rw [List.append_nil] at reached
      exact absurd reached changes
    · exact none

end Charis.Lib.Signal
