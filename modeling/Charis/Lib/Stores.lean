import Charis.Lib.ByteMemory

/-!
# Sequences of stores

Words are stored one after the other.  A byte that none of them covers is kept, and one on which
those that cover it agree has the value that they store.
-/

namespace Charis.Lib

/-- A value and the address where it is stored. -/
structure Store where
  address : Nat
  value : Nat
  deriving DecidableEq

/-- A store of some width covers an address. -/
def Store.Covers (width : Nat) (store : Store) (query : Nat) : Prop :=
  store.address ≤ query ∧ query < store.address + width

namespace ByteMemory

def storeAll (width : Nat) (memory : ByteMemory) (stores : List Store) : ByteMemory :=
  stores.foldl (fun memory store => memory.writeLE store.address width store.value) memory

variable {width query : Nat} {stores : List Store}

theorem storeAll_of_outside (outside : ∀ store ∈ stores, ¬ store.Covers width query)
    (memory : ByteMemory) : memory.storeAll width stores query = memory query := by
  induction stores generalizing memory with
  | nil => rfl
  | cons store stores ih =>
  have apart := outside store (List.mem_cons_self ..)
  rw [storeAll, List.foldl_cons]
  refine (ih (fun other mem => outside other (.tail _ mem)) _).trans ?_
  apply writeLE_of_outside
  rw [Store.Covers] at apart
  omega

theorem writeLE_of_covered {store : Store} (covers : store.Covers width query)
    (memory : ByteMemory) :
    memory.writeLE store.address width store.value query =
      leByte store.value (query - store.address) :=
  if_pos covers

theorem storeAll_of_covered {value : UInt8}
    (covered : ∃ store ∈ stores, store.Covers width query)
    (agree : ∀ store ∈ stores, store.Covers width query →
      leByte store.value (query - store.address) = value)
    (memory : ByteMemory) : memory.storeAll width stores query = value := by
  induction stores generalizing memory with
  | nil =>
      obtain ⟨_, impossible, _⟩ := covered
      cases impossible
  | cons store stores ih =>
  have rest := fun other mem => agree other (List.mem_cons_of_mem store mem)
  by_cases later : ∃ other ∈ stores, other.Covers width query
  · exact ih later rest _
  · have first : store.Covers width query := by
      obtain ⟨other, mem, covers⟩ := covered
      rcases List.mem_cons.mp mem with rfl | mem
      · exact covers
      · exact absurd ⟨other, mem, covers⟩ later
    have outside : ∀ other ∈ stores, ¬ other.Covers width query :=
      fun other mem covers => later ⟨other, mem, covers⟩
    rw [storeAll, List.foldl_cons]
    refine (storeAll_of_outside outside _).trans ?_
    rw [writeLE_of_covered first]
    exact agree store (List.mem_cons_self ..) first

theorem covered_of_storeAll_eq {others : List Store} {value : UInt8}
    (same : ∀ memory : ByteMemory, memory.storeAll width stores = memory.storeAll width others)
    (covered : ∃ store ∈ stores, store.Covers width query)
    (agree : ∀ store ∈ stores, store.Covers width query →
      leByte store.value (query - store.address) = value) :
    ∃ store ∈ others, store.Covers width query := by
  by_contra none
  have outside : ∀ store ∈ others, ¬ store.Covers width query :=
    fun store mem covers => none ⟨store, mem, covers⟩
  -- in a memory with another byte there
  have byte := congrFun (same fun _ => value + 1) query
  rw [storeAll_of_covered covered agree, storeAll_of_outside outside] at byte
  have next := congrArg UInt8.toNat byte
  rw [UInt8.toNat_add] at next
  have small := value.toNat_lt
  have one : (1 : UInt8).toNat = 1 := rfl
  omega

end ByteMemory

end Charis.Lib
