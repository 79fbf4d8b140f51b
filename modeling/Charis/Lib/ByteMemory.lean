import Mathlib

/-!
# Byte-addressed memories

A memory is a total map from byte addresses to bytes.  Fixed-width integers are
stored in little-endian order, blocks of bytes are stored as lists, and every
update is described by the range of addresses it may touch.  Clients reason
about a store either through the value read back or through the frame: two
memories that agree on a range cannot be told apart by reads of that range.
-/

namespace Charis.Lib

/-- A memory maps every byte address to the byte stored there. -/
abbrev ByteMemory := Nat → UInt8

namespace ByteMemory

/-- Little-endian value of the `width` bytes starting at `address`. -/
def readLE (memory : ByteMemory) (address : Nat) : Nat → Nat
  | 0 => 0
  | width + 1 => (memory address).toNat + 256 * readLE memory (address + 1) width

/-- Byte number `index` of the little-endian representation of `value`. -/
def leByte (value index : Nat) : UInt8 := UInt8.ofNat (value / 256 ^ index)

/-- Store the low `width` bytes of `value` at `address`, least significant byte
first. -/
def writeLE (memory : ByteMemory) (address width value : Nat) : ByteMemory :=
  fun query =>
    if address ≤ query ∧ query < address + width then
      leByte value (query - address)
    else
      memory query

/-- Store one byte. -/
def writeByte (memory : ByteMemory) (address : Nat) (value : UInt8) : ByteMemory :=
  fun query => if query = address then value else memory query

/-- Set `length` bytes from `address` on to `value`. -/
def fill (memory : ByteMemory) (address length : Nat) (value : UInt8) : ByteMemory :=
  fun query =>
    if address ≤ query ∧ query < address + length then value else memory query

/-- Store a list of bytes at consecutive addresses. -/
def storeBytes (memory : ByteMemory) (address : Nat) (bytes : List UInt8) :
    ByteMemory :=
  fun query =>
    if address ≤ query ∧ query < address + bytes.length then
      bytes.getD (query - address) 0
    else
      memory query

/-- The `length` bytes from `address` on. -/
def loadBytes (memory : ByteMemory) (address : Nat) : Nat → List UInt8
  | 0 => []
  | length + 1 => memory address :: loadBytes memory (address + 1) length

/-- Two memories hold the same bytes at the addresses `low ≤ a < high`. -/
def AgreeOn (left right : ByteMemory) (low high : Nat) : Prop :=
  ∀ address, low ≤ address → address < high → left address = right address

namespace AgreeOn

variable {left right third : ByteMemory} {low high low' high' : Nat}

theorem refl (memory : ByteMemory) (low high : Nat) : AgreeOn memory memory low high :=
  fun _ _ _ => rfl

theorem symm (agree : AgreeOn left right low high) : AgreeOn right left low high :=
  fun address above below => (agree address above below).symm

theorem trans (first : AgreeOn left right low high)
    (second : AgreeOn right third low high) : AgreeOn left third low high :=
  fun address above below =>
    (first address above below).trans (second address above below)

theorem mono (agree : AgreeOn left right low high) (lowLe : low ≤ low')
    (highLe : high' ≤ high) : AgreeOn left right low' high' :=
  fun address above below =>
    agree address (Nat.le_trans lowLe above) (Nat.lt_of_lt_of_le below highLe)

end AgreeOn

theorem writeLE_of_outside {memory : ByteMemory} {address width value query : Nat}
    (outside : query < address ∨ address + width ≤ query) :
    memory.writeLE address width value query = memory query := by
  simp only [writeLE]
  rw [if_neg]
  omega

theorem writeByte_of_ne {memory : ByteMemory} {address query : Nat} {value : UInt8}
    (different : query ≠ address) :
    memory.writeByte address value query = memory query := by
  simp [writeByte, different]

@[simp] theorem writeByte_self (memory : ByteMemory) (address : Nat) (value : UInt8) :
    memory.writeByte address value address = value := by
  simp [writeByte]

theorem fill_of_outside {memory : ByteMemory} {address length query : Nat}
    {value : UInt8} (outside : query < address ∨ address + length ≤ query) :
    memory.fill address length value query = memory query := by
  simp only [fill]
  rw [if_neg]
  omega

theorem fill_of_inside {memory : ByteMemory} {address length query : Nat}
    {value : UInt8} (above : address ≤ query) (below : query < address + length) :
    memory.fill address length value query = value := by
  simp [fill, above, below]

theorem storeBytes_of_outside {memory : ByteMemory} {address query : Nat}
    {bytes : List UInt8}
    (outside : query < address ∨ address + bytes.length ≤ query) :
    memory.storeBytes address bytes query = memory query := by
  simp only [storeBytes]
  rw [if_neg]
  omega

theorem storeBytes_of_inside {memory : ByteMemory} {address query : Nat}
    {bytes : List UInt8} (above : address ≤ query)
    (below : query < address + bytes.length) :
    memory.storeBytes address bytes query = bytes.getD (query - address) 0 := by
  simp [storeBytes, above, below]

theorem agreeOn_writeLE {memory : ByteMemory} {address width value low high : Nat}
    (apart : high ≤ address ∨ address + width ≤ low) :
    AgreeOn (memory.writeLE address width value) memory low high := by
  intro query above below
  exact writeLE_of_outside (by omega)

theorem agreeOn_writeByte {memory : ByteMemory} {address low high : Nat}
    {value : UInt8} (apart : high ≤ address ∨ address < low) :
    AgreeOn (memory.writeByte address value) memory low high := by
  intro query above below
  exact writeByte_of_ne (by omega)

theorem agreeOn_fill {memory : ByteMemory} {address length low high : Nat}
    {value : UInt8} (apart : high ≤ address ∨ address + length ≤ low) :
    AgreeOn (memory.fill address length value) memory low high := by
  intro query above below
  exact fill_of_outside (by omega)

theorem agreeOn_storeBytes {memory : ByteMemory} {address low high : Nat}
    {bytes : List UInt8} (apart : high ≤ address ∨ address + bytes.length ≤ low) :
    AgreeOn (memory.storeBytes address bytes) memory low high := by
  intro query above below
  exact storeBytes_of_outside (by omega)

@[simp] theorem storeBytes_nil (memory : ByteMemory) (address : Nat) :
    memory.storeBytes address [] = memory := by
  funext query
  exact storeBytes_of_outside (by simp only [List.length_nil]; omega)

theorem storeBytes_cons (memory : ByteMemory) (address : Nat) (byte : UInt8)
    (bytes : List UInt8) :
    memory.storeBytes address (byte :: bytes) =
      (memory.writeByte address byte).storeBytes (address + 1) bytes := by
  funext query
  by_cases first : query = address
  · subst first
    rw [storeBytes_of_inside (Nat.le_refl _) (by simp),
      storeBytes_of_outside (by omega)]
    simp
  · by_cases inside : address < query ∧ query < address + 1 + bytes.length
    · rw [storeBytes_of_inside (by omega) (by simp only [List.length_cons]; omega),
        storeBytes_of_inside (by omega) (by omega),
        show query - address = query - (address + 1) + 1 by omega, List.getD_cons_succ]
    · rw [storeBytes_of_outside (by simp only [List.length_cons]; omega),
        storeBytes_of_outside (by omega), writeByte_of_ne first]

theorem storeBytes_append (memory : ByteMemory) (address : Nat)
    (first second : List UInt8) :
    memory.storeBytes address (first ++ second) =
      (memory.storeBytes address first).storeBytes (address + first.length) second := by
  induction first generalizing memory address with
  | nil => simp
  | cons byte first ih =>
      rw [List.cons_append, storeBytes_cons, ih, storeBytes_cons, List.length_cons,
        show address + (first.length + 1) = address + 1 + first.length by omega]

/-- Lists that do not overlap are stored in either order. -/
theorem storeBytes_comm (memory : ByteMemory) {address address' : Nat}
    {bytes bytes' : List UInt8} (apart : address + bytes.length ≤ address') :
    (memory.storeBytes address bytes).storeBytes address' bytes' =
      (memory.storeBytes address' bytes').storeBytes address bytes := by
  funext query
  rcases Nat.lt_or_ge query address' with below | above
  · have untouched : ¬ (address' ≤ query ∧ query < address' + bytes'.length) := by omega
    simp only [storeBytes, untouched, if_false]
  · have untouched : ¬ (address ≤ query ∧ query < address + bytes.length) := by omega
    simp only [storeBytes, untouched, if_false]

/-- Two ranges that meet are filled like one. -/
theorem fill_fill (memory : ByteMemory) (address first second : Nat) (value : UInt8) :
    (memory.fill address first value).fill (address + first) second value =
      memory.fill address (first + second) value := by
  funext query
  simp only [fill]
  split_ifs <;> first | rfl | omega

@[simp] theorem fill_zero_length (memory : ByteMemory) (address : Nat) (value : UInt8) :
    memory.fill address 0 value = memory := by
  funext query
  exact fill_of_outside (by omega)

theorem readLE_congr {left right : ByteMemory} {address width : Nat}
    (agree : AgreeOn left right address (address + width)) :
    left.readLE address width = right.readLE address width := by
  induction width generalizing address with
  | zero => rfl
  | succ width ih =>
      have head := agree address (Nat.le_refl _) (by omega)
      have tail := ih (agree.mono (Nat.le_succ address) (by omega))
      simp only [readLE, head, tail]

/-- The same bytes at another place. -/
theorem readLE_eq_of_shift {left right : ByteMemory} {address address' width : Nat}
    (same : ∀ index < width, left (address + index) = right (address' + index)) :
    left.readLE address width = right.readLE address' width := by
  induction width generalizing address address' with
  | zero => rfl
  | succ width ih =>
  have head : left address = right address' := same 0 (Nat.succ_pos _)
  have tail : left.readLE (address + 1) width = right.readLE (address' + 1) width := by
    apply ih
    intro index below
    have next := same (index + 1) (Nat.succ_lt_succ below)
    rw [Nat.add_right_comm, Nat.add_assoc, next, Nat.add_right_comm, Nat.add_assoc]
  simp only [readLE, head, tail]

theorem readLE_lt (memory : ByteMemory) (address width : Nat) :
    memory.readLE address width < 256 ^ width := by
  induction width generalizing address with
  | zero => simp [readLE]
  | succ width ih =>
      have head := (memory address).toNat_lt
      have tail := ih (address + 1)
      simp only [readLE, Nat.pow_succ]
      omega

/-- Reading a little-endian field byte by byte recovers the number whose bytes
were stored there. -/
theorem readLE_eq_mod {memory : ByteMemory} {address width value : Nat}
    (bytes : ∀ index < width, memory (address + index) = leByte value index) :
    memory.readLE address width = value % 256 ^ width := by
  induction width generalizing address value with
  | zero => simp [readLE, Nat.mod_one]
  | succ width ih =>
  have head : (memory address).toNat = value % 256 := by
    have first := bytes 0 (by omega)
    simp only [Nat.add_zero, leByte, Nat.pow_zero, Nat.div_one] at first
    rw [first, UInt8.toNat_ofNat']
  have tail : memory.readLE (address + 1) width = value / 256 % 256 ^ width := by
    apply ih
    intro index below
    have next := bytes (index + 1) (by omega)
    rw [show address + (index + 1) = address + 1 + index by omega] at next
    rw [next, leByte, leByte, Nat.pow_succ', Nat.div_div_eq_div_mul]
  simp only [readLE]
  rw [head, tail, Nat.pow_succ', Nat.mod_mul]

@[simp] theorem readLE_writeLE_self (memory : ByteMemory)
    (address width value : Nat) :
    (memory.writeLE address width value).readLE address width =
      value % 256 ^ width := by
  apply readLE_eq_mod
  intro index below
  simp [writeLE, below]

theorem readLE_writeLE_of_apart {memory : ByteMemory}
    {address width value address' width' : Nat}
    (apart : address' + width' ≤ address ∨ address + width ≤ address') :
    (memory.writeLE address width value).readLE address' width' =
      memory.readLE address' width' :=
  readLE_congr (agreeOn_writeLE apart)

theorem readLE_zero_of_bytes {memory : ByteMemory} {address width : Nat}
    (zero : ∀ index < width, memory (address + index) = 0) :
    memory.readLE address width = 0 := by
  have read := @readLE_eq_mod memory address width 0 (by
      intro index below
      simp [zero index below, leByte])
  simpa using read

@[simp] theorem length_loadBytes (memory : ByteMemory) (address length : Nat) :
    (memory.loadBytes address length).length = length := by
  induction length generalizing address with
  | zero => rfl
  | succ length ih => simp [loadBytes, ih]

theorem getD_loadBytes {memory : ByteMemory} {address length index : Nat}
    (below : index < length) :
    (memory.loadBytes address length).getD index 0 = memory (address + index) := by
  induction length generalizing address index with
  | zero => omega
  | succ length ih =>
      cases index with
      | zero => simp [loadBytes]
      | succ index =>
          simp only [loadBytes, List.getD_cons_succ]
          rw [ih (by omega), Nat.add_assoc, Nat.add_comm 1 index]

theorem loadBytes_append (memory : ByteMemory) (address first second : Nat) :
    memory.loadBytes address (first + second) =
      memory.loadBytes address first ++ memory.loadBytes (address + first) second := by
  induction first generalizing address with
  | zero => simp [loadBytes]
  | succ first ih =>
      rw [show first + 1 + second = first + second + 1 by omega]
      simp only [loadBytes, List.cons_append]
      rw [ih, show address + (first + 1) = address + 1 + first by omega]

theorem loadBytes_congr {left right : ByteMemory} {address length : Nat}
    (agree : AgreeOn left right address (address + length)) :
    left.loadBytes address length = right.loadBytes address length := by
  induction length generalizing address with
  | zero => rfl
  | succ length ih =>
      rw [loadBytes, loadBytes, agree address (Nat.le_refl _) (by omega),
        ih (agree.mono (Nat.le_succ _) (by omega))]

theorem loadBytes_storeBytes (memory : ByteMemory) (address : Nat) (bytes : List UInt8) :
    (memory.storeBytes address bytes).loadBytes address bytes.length = bytes := by
  induction bytes generalizing memory address with
  | nil => rfl
  | cons byte bytes ih =>
      rw [storeBytes_cons, List.length_cons, loadBytes, ih,
        storeBytes_of_outside (.inl (Nat.lt_succ_self address)), writeByte_self]

theorem part_loadBytes {memory : ByteMemory}
    {address size first length : Nat} (inside : first + length ≤ size) :
    ((memory.loadBytes address size).drop first).take length =
      memory.loadBytes (address + first) length := by
  obtain ⟨rest, rfl⟩ := Nat.exists_eq_add_of_le inside
  rw [Nat.add_assoc, loadBytes_append, loadBytes_append,
    List.drop_left' (length_loadBytes _ _ _),
    List.take_left' (length_loadBytes _ _ _)]

end ByteMemory

end Charis.Lib
