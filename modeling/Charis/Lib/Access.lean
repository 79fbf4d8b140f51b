import Charis.Lib.ByteMemory

/-!
# Computations that work in a memory

A computation loads and stores single bytes, and the addresses that it touches are recorded.
A specification bounds these addresses and says what the computation returns and what memory it
leaves.
-/

namespace Charis.Lib

/-- A value, the memory afterwards, and the addresses that were touched. -/
structure Outcome (α : Type) where
  value : α
  memory : ByteMemory
  touched : List Nat := []

/-- A computation in a memory. -/
def Access (α : Type) : Type := ByteMemory → Outcome α

namespace Access

variable {α β : Type}

instance : Monad Access where
  pure value := fun memory => ⟨value, memory, []⟩
  bind first rest := fun memory =>
    ⟨(rest (first memory).value (first memory).memory).value,
      (rest (first memory).value (first memory).memory).memory,
      (first memory).touched ++ (rest (first memory).value (first memory).memory).touched⟩

/-- A byte is loaded. -/
def load (address : Nat) : Access UInt8 := fun memory => ⟨memory address, memory, [address]⟩

/-- A byte is stored. -/
def store (address : Nat) (value : UInt8) : Access Unit :=
  fun memory => ⟨(), memory.writeByte address value, [address]⟩

theorem value_load_bind {rest : UInt8 → Access β} {memory : ByteMemory} {address : Nat} :
    ((load address >>= rest) memory).value = (rest (memory address) memory).value := rfl

theorem mem_touched_bind {access : Access α} {rest : α → Access β} {memory : ByteMemory}
    {address : Nat}
    (later : address ∈ (rest (access memory).value (access memory).memory).touched) :
    address ∈ ((access >>= rest) memory).touched :=
  List.mem_append_right _ later

theorem mem_touched_load_bind {rest : UInt8 → Access β} {memory : ByteMemory}
    {address other : Nat} (later : address ∈ (rest (memory other) memory).touched) :
    address ∈ ((load other >>= rest) memory).touched :=
  List.mem_append_right _ later

/-- A computation touches nothing beyond a limit, and what it returns and leaves is as it
should. -/
structure Ensures (limit : Nat) (access : Access α) (memory : ByteMemory)
    (post : α → ByteMemory → Prop) : Prop where
  touched : ∀ address ∈ (access memory).touched, address ≤ limit
  post : post (access memory).value (access memory).memory

namespace Ensures

variable {limit address : Nat} {memory : ByteMemory} {value : UInt8} {access : Access α}
  {rest : α → Access β} {post : α → ByteMemory → Prop} {post' : β → ByteMemory → Prop}

protected theorem pure {value : α} (holds : post value memory) :
    Ensures limit (pure value) memory post :=
  ⟨nofun, holds⟩

protected theorem bind (first : Ensures limit access memory post)
    (next : ∀ value memory', post value memory' → Ensures limit (rest value) memory' post') :
    Ensures limit (access >>= rest) memory post' := by
  have second := next _ _ first.post
  constructor
  · intro address mem
    cases List.mem_append.mp mem with
    | inl early => exact first.touched address early
    | inr late => exact second.touched address late
  · exact second.post

/-- A byte is loaded and the computation goes on. -/
theorem load_bind {rest : UInt8 → Access β} (inside : address ≤ limit)
    (next : Ensures limit (rest (memory address)) memory post') :
    Ensures limit (load address >>= rest) memory post' := by
  constructor
  · intro other mem
    cases List.mem_append.mp mem with
    | inl here =>
        rw [List.mem_singleton.mp here]
        exact inside
    | inr late => exact next.touched other late
  · exact next.post

/-- A byte is stored and the computation goes on. -/
theorem store_bind {rest : Unit → Access β} (inside : address ≤ limit)
    (next : Ensures limit (rest ()) (memory.writeByte address value) post') :
    Ensures limit (store address value >>= rest) memory post' := by
  constructor
  · intro other mem
    cases List.mem_append.mp mem with
    | inl here =>
        rw [List.mem_singleton.mp here]
        exact inside
    | inr late => exact next.touched other late
  · exact next.post

theorem mono {post' : α → ByteMemory → Prop} (ensures : Ensures limit access memory post)
    (weaker : ∀ value memory', post value memory' → post' value memory') :
    Ensures limit access memory post' :=
  ⟨ensures.touched, weaker _ _ ensures.post⟩

end Ensures

end Access

/-- A string with the character that ends it is at an address. -/
def Spells (memory : ByteMemory) : Nat → List UInt8 → Prop
  | address, [] => memory address = 0
  | address, c :: text => memory address = c ∧ c ≠ 0 ∧ Spells memory (address + 1) text

namespace Spells

variable {memory memory' : ByteMemory} {address : Nat} {text : List UInt8}

/-- The character behind the string. -/
theorem ended (spells : Spells memory address text) : memory (address + text.length) = 0 := by
  induction text generalizing address with
  | nil => exact spells
  | cons c text ih =>
      rw [List.length_cons, Nat.add_comm text.length, ← Nat.add_assoc]
      exact ih spells.2.2

theorem getElem (spells : Spells memory address text) {k : Nat} (inside : k < text.length) :
    memory (address + k) = text[k] ∧ text[k] ≠ 0 := by
  induction text generalizing address k with
  | nil => cases inside
  | cons c text ih =>
  cases k with
  | zero => exact ⟨spells.1, spells.2.1⟩
  | succ k =>
      have later := ih spells.2.2 (Nat.lt_of_succ_lt_succ inside)
      rw [Nat.add_assoc, Nat.add_comm 1] at later
      exact later

theorem congr (spells : Spells memory address text)
    (same : ∀ k ≤ text.length, memory' (address + k) = memory (address + k)) :
    Spells memory' address text := by
  induction text generalizing address with
  | nil => exact (same 0 (Nat.le_refl _)).trans spells
  | cons c text ih =>
      refine ⟨(same 0 (Nat.zero_le _)).trans spells.1, spells.2.1, ih spells.2.2 ?_⟩
      intro k bound
      have later := same (k + 1) (Nat.succ_le_succ bound)
      rwa [Nat.add_comm k, ← Nat.add_assoc] at later

/-- A string is in a memory if its characters are, and a zero behind them. -/
theorem of_getD (filled : ∀ c ∈ text, c ≠ 0)
    (each : ∀ k ≤ text.length, memory (address + k) = text.getD k 0) :
    Spells memory address text := by
  induction text generalizing address with
  | nil => exact each 0 (Nat.le_refl 0)
  | cons c text ih =>
      refine ⟨each 0 (Nat.zero_le _), filled c List.mem_cons_self, ?_⟩
      apply ih fun other member => filled other (List.mem_cons_of_mem _ member)
      intro k inside
      have next := each (k + 1) (Nat.succ_le_succ inside)
      rwa [List.getD_cons_succ, Nat.add_comm k, ← Nat.add_assoc] at next

/-- The rest of a string is a string. -/
theorem drop (spells : Spells memory address text) {k : Nat} (inside : k ≤ text.length) :
    Spells memory (address + k) (text.drop k) := by
  induction k generalizing address text with
  | zero => exact spells
  | succ k ih =>
      cases text with
      | nil => cases inside
      | cons c text =>
          have later := ih spells.2.2 (Nat.le_of_succ_le_succ inside)
          rwa [Nat.add_assoc, Nat.add_comm 1] at later

/-- A string is cut by storing the character that ends it. -/
theorem take (spells : Spells memory address text) {k : Nat} (inside : k ≤ text.length) :
    Spells (memory.writeByte (address + k) 0) address (text.take k) := by
  induction k generalizing address text with
  | zero => exact ByteMemory.writeByte_self _ _ _
  | succ k ih =>
  cases text with
  | nil => cases inside
  | cons c text =>
      have later := ih spells.2.2 (Nat.le_of_succ_le_succ inside)
      rw [Nat.add_assoc, Nat.add_comm 1] at later
      refine ⟨?_, spells.2.1, later⟩
      rw [ByteMemory.writeByte_of_ne (by omega)]
      exact spells.1

end Spells

/-- Some bytes are at an address. -/
def Holds (memory : ByteMemory) : Nat → List UInt8 → Prop
  | _, [] => True
  | address, c :: bytes => memory address = c ∧ Holds memory (address + 1) bytes

namespace Holds

variable {memory memory' : ByteMemory} {address : Nat} {bytes more : List UInt8}

theorem congr (holds : Holds memory address bytes)
    (same : ∀ other, address ≤ other → memory' other = memory other) :
    Holds memory' address bytes := by
  induction bytes generalizing address with
  | nil => trivial
  | cons c bytes ih =>
      constructor
      · exact (same address (Nat.le_refl _)).trans holds.1
      · apply ih holds.2
        intro other above
        exact same other (Nat.le_of_succ_le above)

/-- The bytes behind some others. -/
theorem append_right (holds : Holds memory address (bytes ++ more)) :
    Holds memory (address + bytes.length) more := by
  induction bytes generalizing address with
  | nil => exact holds
  | cons c bytes ih =>
      rw [List.length_cons, Nat.add_comm bytes.length, ← Nat.add_assoc]
      exact ih holds.2

/-- Bytes without zeros are a string when a zero is stored behind them. -/
theorem spells (holds : Holds memory address (bytes ++ more)) (filled : ∀ c ∈ bytes, c ≠ 0) :
    Spells (memory.writeByte (address + bytes.length) 0) address bytes := by
  induction bytes generalizing address with
  | nil => exact ByteMemory.writeByte_self _ _ _
  | cons c bytes ih =>
      have later := ih holds.2 (fun other mem => filled other (List.mem_cons_of_mem _ mem))
      rw [Nat.add_assoc, Nat.add_comm 1] at later
      refine ⟨?_, filled c List.mem_cons_self, later⟩
      have apart : address ≠ address + (bytes.length + 1) := by omega
      exact (ByteMemory.writeByte_of_ne apart).trans holds.1

/-- Bytes that are compared with a list one by one. -/
theorem of_getElem (each : ∀ k (inside : k < bytes.length), memory (address + k) = bytes[k]) :
    Holds memory address bytes := by
  induction bytes generalizing address with
  | nil => trivial
  | cons c bytes ih =>
  constructor
  · exact each 0 (Nat.succ_pos _)
  · apply ih
    intro k inside
    have next := each (k + 1) (Nat.succ_lt_succ inside)
    rwa [show address + 1 + k = address + (k + 1) by omega]

end Holds

end Charis.Lib
