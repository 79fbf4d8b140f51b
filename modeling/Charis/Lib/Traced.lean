import Mathlib.Order.Basic

/-!
# Computations that leave a trace

A computation comes with the events on the way to its value, in order.  What all of them have to
satisfy can be asked of a computation and answered from its parts.
-/

namespace Charis.Lib

/-- A value and the events on the way to it. -/
structure Traced (ε α : Type) where
  value : α
  events : List ε := []

namespace Traced

variable {ε α β : Type} {allowed : ε → Prop}

instance : Monad (Traced ε) where
  pure value := ⟨value, []⟩
  bind first rest := ⟨(rest first.value).value, first.events ++ (rest first.value).events⟩

/-- Something happens. -/
def event (e : ε) : Traced ε Unit := ⟨(), [e]⟩

@[simp] theorem value_pure (value : α) : (pure value : Traced ε α).value = value := rfl

@[simp] theorem value_bind (first : Traced ε α) (rest : α → Traced ε β) :
    (first >>= rest).value = (rest first.value).value := rfl

/-- All events are allowed. -/
def Every (allowed : ε → Prop) (traced : Traced ε α) : Prop := ∀ e ∈ traced.events, allowed e

@[simp] theorem every_pure (value : α) : Every allowed (pure value : Traced ε α) := nofun

@[simp] theorem every_event {e : ε} : Every allowed (event e) ↔ allowed e :=
  List.forall_mem_singleton

@[simp] theorem every_bind {first : Traced ε α} {rest : α → Traced ε β} :
    Every allowed (first >>= rest) ↔ Every allowed first ∧ Every allowed (rest first.value) :=
  List.forall_mem_append

end Traced

end Charis.Lib
