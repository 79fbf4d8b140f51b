import Mathlib

/-!
# Histories of bounded length

The places that were visited, in their order, and a cursor that is moved back and forward.  A new
place takes the place of those after the cursor, and the oldest ones are forgotten.
-/

namespace Charis.Lib

/-- A history of at least one and at most `limit` places. -/
@[ext]
structure BoundedHistory (α : Type) (limit : Nat) where
  entries : List α
  cursor : Nat
  cursor_lt : cursor < entries.length
  length_le : entries.length ≤ limit

namespace BoundedHistory

variable {α : Type} {limit : Nat}

/-- The place at the cursor. -/
def current (history : BoundedHistory α limit) : α :=
  history.entries.get ⟨history.cursor, history.cursor_lt⟩

/-- A history of one place. -/
def single (a : α) (room : 0 < limit) : BoundedHistory α limit where
  entries := [a]
  cursor := 0
  cursor_lt := Nat.zero_lt_one
  length_le := room

/-- The places up to the cursor and a new one. -/
def extended (history : BoundedHistory α limit) (a : α) : List α :=
  history.entries.take (history.cursor + 1) ++ [a]

theorem length_extended (history : BoundedHistory α limit) (a : α) :
    (history.extended a).length = history.cursor + 2 := by
  have inside := history.cursor_lt
  rw [extended, List.length_append, List.length_take, List.length_singleton,
    min_eq_left inside]

/-- Append a place, after those up to the cursor. -/
def push (history : BoundedHistory α limit) (a : α) : BoundedHistory α limit where
  entries := (history.extended a).drop (history.cursor + 2 - limit)
  cursor := min (history.cursor + 1) (limit - 1)
  cursor_lt := by
    have inside := history.cursor_lt
    have bounded := history.length_le
    rw [List.length_drop, length_extended]
    omega
  length_le := by
    rw [List.length_drop, length_extended]
    omega

/-- The cursor is at the last place. -/
theorem length_push (history : BoundedHistory α limit) (a : α) :
    (history.push a).cursor + 1 = (history.push a).entries.length := by
  have inside := history.cursor_lt
  have bounded := history.length_le
  simp only [push, List.length_drop, length_extended]
  omega

/-- Go to a place. -/
def visit [DecidableEq α] (history : BoundedHistory α limit) (a : α) : BoundedHistory α limit :=
  if history.current = a then history else history.push a

/-- Go to the place before, if there is one. -/
def back (history : BoundedHistory α limit) : BoundedHistory α limit where
  entries := history.entries
  cursor := history.cursor - 1
  cursor_lt := (Nat.sub_le _ _).trans_lt history.cursor_lt
  length_le := history.length_le

/-- Go to the place after, if there is one. -/
def forward (history : BoundedHistory α limit) : BoundedHistory α limit :=
  if more : history.cursor + 1 < history.entries.length then
    { history with cursor := history.cursor + 1, cursor_lt := more }
  else history

theorem current_push (history : BoundedHistory α limit) (a : α) :
    (history.push a).current = a := by
  have inside := history.cursor_lt
  have bounded := history.length_le
  have last : history.cursor + 2 - limit + min (history.cursor + 1) (limit - 1) =
      (history.entries.take (history.cursor + 1)).length := by
    rw [List.length_take]
    omega
  rw [current, List.get_eq_getElem]
  simp only [push, List.getElem_drop, extended, last]
  exact List.getElem_concat_length rfl _

theorem forward_back (history : BoundedHistory α limit) (earlier : 0 < history.cursor) :
    history.back.forward = history := by
  have inside := history.cursor_lt
  have again : history.cursor - 1 + 1 = history.cursor := Nat.sub_add_cancel earlier
  have more : history.back.cursor + 1 < history.back.entries.length := by
    rw [back, again]
    exact inside
  rw [forward, dif_pos more]
  exact BoundedHistory.ext rfl again

end BoundedHistory

end Charis.Lib
