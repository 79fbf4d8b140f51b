import Charis.Lib.ByteMemory

/-!
# Computations that record what they read

A computation on a byte memory comes with the spans of bytes that it has read, in order.
Whether all of them lie below a limit can then be asked of a computation and answered from
its parts.
-/

namespace Charis.Lib

universe u

/-- A range of bytes. -/
structure Span where
  first : Nat
  length : Nat
  deriving DecidableEq, Repr

/-- The value of a computation and the spans that it has read. -/
@[ext]
structure Reads (α : Type u) where
  value : α
  spans : List Span := []

namespace Reads

variable {α β : Type u}

instance : Monad Reads where
  pure value := ⟨value, []⟩
  bind reads rest := ⟨(rest reads.value).value, reads.spans ++ (rest reads.value).spans⟩

@[simp] theorem value_pure (value : α) : (pure value : Reads α).value = value := rfl

@[simp] theorem spans_pure (value : α) : (pure value : Reads α).spans = [] := rfl

@[simp] theorem value_bind (reads : Reads α) (rest : α → Reads β) :
    (reads >>= rest).value = (rest reads.value).value := rfl

@[simp] theorem spans_bind (reads : Reads α) (rest : α → Reads β) :
    (reads >>= rest).spans = reads.spans ++ (rest reads.value).spans := rfl

/-- The little-endian number in some bytes of a memory. -/
def number (memory : ByteMemory) (address width : Nat) : Reads Nat :=
  ⟨memory.readLE address width, [⟨address, width⟩]⟩

@[simp] theorem value_number (memory : ByteMemory) (address width : Nat) :
    (number memory address width).value = memory.readLE address width := rfl

@[simp] theorem spans_number (memory : ByteMemory) (address width : Nat) :
    (number memory address width).spans = [⟨address, width⟩] := rfl

/-- Every byte that is read lies below a limit. -/
def Within (limit : Nat) (reads : Reads α) : Prop :=
  ∀ span ∈ reads.spans, span.first + span.length ≤ limit

theorem within_pure (limit : Nat) (value : α) : Within limit (pure value : Reads α) := by
  intro span member
  cases member

theorem within_bind {limit : Nat} {reads : Reads α} {rest : α → Reads β} :
    Within limit (reads >>= rest) ↔
      Within limit reads ∧ Within limit (rest reads.value) := by
  simp only [Within, spans_bind, List.mem_append]
  constructor
  · intro within
    exact ⟨fun span member => within span (.inl member),
      fun span member => within span (.inr member)⟩
  · rintro ⟨first, second⟩ span (member | member)
    · exact first span member
    · exact second span member

theorem within_number {limit : Nat} {memory : ByteMemory} {address width : Nat} :
    Within limit (number memory address width) ↔ address + width ≤ limit := by
  simp [Within]

end Reads

end Charis.Lib
