import Charis.Memory.Isolation

/-!
# Copying between the kernel and user space

The system calls reach user memory through `vmm_walk` and the flags of the entry
it returns.  The reference is what the processor would let ring 3 do: load or
store each byte through a walk that checks every level.  The kernel itself follows
the tables and accesses the page frames at their physical addresses, which the
processor translates too.  The two agree as long as those identity pages are in
their place and the range stays clear of 2 MiB pages, whose leaf `vmm_walk` takes
for a link.
-/

namespace Charis.Memory

open Charis.Lib
open Charis.Lib.RadixTree
open Entry

/-- End of the lower half of the address space. -/
abbrev userLimit : Nat := 0x0000800000000000

/-- The entry that a pointer returned by `vmm_walk` points at. -/
def entryAt (memory : ByteMemory) (address : Nat) : Entry :=
  BitVec.ofNat 64 (memory.readLE address 8)

/-- The physical address that the copy routines compute from an entry. -/
def physicalAddress (pte : Entry) (address : Nat) : Nat :=
  frame pte ||| (address % pageSize)

/-- Bytes of a copy that lie on the page of `address`. -/
def chunkSize (address left : Nat) : Nat := min (pageSize - address % pageSize) left

theorem chunk_decreases {address size copied : Nat} (inside : copied < size) :
    size - (copied + chunkSize address (size - copied)) < size - copied := by
  simp only [chunkSize, pageSize]
  omega

/-- The loop that all copies to and from user space run: the range is cut at page
boundaries, and `body` handles the part that starts `copied` bytes into the range
or reports a fault. -/
def pageLoop {State : Type*} (body : State → (copied chunk : Nat) → Option State)
    (address size copied : Nat) (state : State) : Bool × State :=
  if copied < size then
    let chunk := chunkSize (address + copied) (size - copied)
    match body state copied chunk with
    | none => (false, state)
    | some state => pageLoop body address size (copied + chunk) state
  else (true, state)
  termination_by size - copied
  decreasing_by exact chunk_decreases ‹_›

/-- What every part of a copy keeps holds for the whole range. -/
theorem pageLoop_invariant {State : Type*}
    {body : State → (copied chunk : Nat) → Option State} {address size : Nat}
    (invariant : Nat → State → Prop)
    (step : ∀ copied chunk state state', copied < size →
      chunk = chunkSize (address + copied) (size - copied) → invariant copied state →
      body state copied chunk = some state' → invariant (copied + chunk) state')
    {copied : Nat} {state state' : State} (inside : copied ≤ size)
    (start : invariant copied state)
    (done : pageLoop body address size copied state = (true, state')) :
    invariant size state' := by
  fun_induction pageLoop body address size copied state with
  | case1 copied state more chunk failed => cases done
  | case2 copied state more chunk next handled ih =>
      apply ih _ (step copied chunk state next more rfl start handled) done
      simp only [chunk, chunkSize]
      omega
  | case3 copied state finished =>
      cases done
      rwa [show size = copied by omega]

theorem pageLoop_succeeds {State : Type*}
    {body : State → (copied chunk : Nat) → Option State} {address size : Nat}
    (invariant : Nat → State → Prop)
    (step : ∀ copied chunk state, copied < size →
      chunk = chunkSize (address + copied) (size - copied) → invariant copied state →
      ∃ state', body state copied chunk = some state' ∧ invariant (copied + chunk) state')
    {copied : Nat} {state : State} (inside : copied ≤ size) (start : invariant copied state) :
    ∃ state', pageLoop body address size copied state = (true, state') ∧
      invariant size state' := by
  fun_induction pageLoop body address size copied state with
  | case1 copied state more chunk failed =>
      obtain ⟨next, handled, -⟩ := step copied chunk state more rfl start
      rw [failed] at handled
      cases handled
  | case2 copied state more chunk next handled ih =>
      obtain ⟨next', handled', kept⟩ := step copied chunk state more rfl start
      rw [handled] at handled'
      cases handled'
      apply ih _ kept
      simp only [chunk, chunkSize]
      omega
  | case3 copied state finished =>
      refine ⟨state, rfl, ?_⟩
      rwa [show size = copied by omega]

/-- The page-table entry that the copy routines find for an address. -/
def userEntry (machine : Machine) (pml4 address : Nat)
    (reach : Reach := fun _ address => address) : Option Entry :=
  (walk machine pml4 address false reach).1.map fun pte =>
    entryAt machine.memory (reach machine pte)

/-- One round of `syscall_copy_to_user_data`: the part of the source that lies on
one page, or nothing when the page is missing or closed. -/
def copyToUserChunk (machine : Machine) (pml4 address : Nat) (bytes : List UInt8)
    (reach : Reach := fun _ address => address) : Option Machine :=
  match userEntry machine pml4 address reach with
  | none => none
  | some pte =>
      if !present pte || !user pte || !writable pte then none
      else
        some { machine with
          memory := machine.memory.storeBytes
            (reach machine (physicalAddress pte address)) bytes }

/-- `syscall_copy_to_user_data`; a root of zero stands for a task without address
space and no source for a null pointer. -/
def copyToUserData (machine : Machine) (pml4 userAddress : Nat)
    (source : Option (List UInt8)) (size : Nat)
    (reach : Reach := fun _ address => address) : Bool × Machine :=
  if pml4 = 0 then (false, machine)
  else if size = 0 then (true, machine)
  else
    match source with
    | none => (false, machine)
    | some bytes =>
        if userAddress ≥ userLimit ∨ size > userLimit - userAddress then (false, machine)
        else
          pageLoop (fun machine copied chunk => copyToUserChunk machine pml4
            (userAddress + copied) ((bytes.drop copied).take chunk) reach)
            userAddress size 0 machine

/-- One round of `syscall_copy_user_data`. -/
def copyUserChunk (machine : Machine) (pml4 address length : Nat)
    (reach : Reach := fun _ address => address) : Option (List UInt8) :=
  match userEntry machine pml4 address reach with
  | none => none
  | some pte =>
      if !present pte || !user pte then none
      else
        some (machine.memory.loadBytes (reach machine (physicalAddress pte address)) length)

/-- `syscall_copy_user_data`: the bytes that arrive at a destination, which is
null when `valid` is false. -/
def copyUserData (machine : Machine) (pml4 userAddress : Nat) (valid : Bool)
    (size : Nat) (reach : Reach := fun _ address => address) : Bool × List UInt8 :=
  if pml4 = 0 then (false, [])
  else if size = 0 then (true, [])
  else if !valid || userAddress ≥ userLimit || size > userLimit - userAddress then
    (false, [])
  else
    pageLoop (fun destination copied chunk =>
      (copyUserChunk machine pml4 (userAddress + copied) chunk reach).map
        (destination ++ ·))
      userAddress size 0 []

/-- The loop of `syscall_copy_user_string` with `remaining` bytes of capacity
left.  When the capacity is used up the last byte is overwritten by a zero. -/
def copyUserStringLoop (machine : Machine) (pml4 userAddress remaining : Nat)
    (destination : List UInt8) (reach : Reach := fun _ address => address) :
    Bool × List UInt8 :=
  match remaining with
  | 0 => (false, destination.dropLast ++ [0])
  | remaining + 1 =>
      let address := (userAddress + destination.length) % 2 ^ 64
      if address < userAddress ∨ address ≥ userLimit then (false, destination)
      else
        match userEntry machine pml4 address reach with
        | none => (false, destination)
        | some pte =>
            if !present pte || !user pte then (false, destination)
            else
              let byte := machine.memory (reach machine (physicalAddress pte address))
              if byte = 0 then (true, destination ++ [byte])
              else
                copyUserStringLoop machine pml4 userAddress remaining
                  (destination ++ [byte]) reach

/-- `syscall_copy_user_string`: the bytes that arrive at a destination of the given
capacity, which is null when `valid` is false. -/
def copyUserString (machine : Machine) (pml4 userAddress : Nat) (valid : Bool)
    (capacity : Nat) (reach : Reach := fun _ address => address) : Bool × List UInt8 :=
  if pml4 = 0 ∨ userAddress = 0 ∨ valid = false ∨ capacity = 0 ∨
      userAddress ≥ userLimit then (false, [])
  else copyUserStringLoop machine pml4 userAddress capacity [] reach

/-- The physical address of a byte that ring 3 may access. -/
def ringThree (memory : ByteMemory) (root virt : Nat) (write : Bool) : Option Nat :=
  match hardwareWalk memory root virt with
  | some translation =>
      if translation.user && (translation.writable || !write) then
        some (translation.frame + virt % pageSize)
      else none
  | none => none

/-- Memory after ring 3 has stored bytes from `virt` on, each at the address that
the walk of `tables` yields. -/
def ringThreeStores (tables : ByteMemory) (root : Nat) :
    Nat → List UInt8 → ByteMemory → Option ByteMemory
  | _, [], memory => some memory
  | virt, byte :: bytes, memory =>
      (ringThree tables root virt true).bind fun address =>
        ringThreeStores tables root (virt + 1) bytes (memory.writeByte address byte)

/-- The bytes that ring 3 loads from `virt` on. -/
def ringThreeLoads (memory : ByteMemory) (root : Nat) : Nat → Nat → Option (List UInt8)
  | _, 0 => some []
  | virt, size + 1 =>
      (ringThree memory root virt false).bind fun address =>
        (ringThreeLoads memory root (virt + 1) size).map (memory address :: ·)

/-- An address below a 2 MiB leaf. -/
def LargePage (memory : ByteMemory) (root virt : Nat) : Prop :=
  ∃ pd, tableAt memory root [pml4Index virt, pdptIndex virt] = some pd ∧
    present (readEntry memory pd (pdIndex virt)) = true ∧
    huge (readEntry memory pd (pdIndex virt)) = true

section Walk

variable {machine : Machine} {root virt : Nat} {reach : Reach}

theorem walkLevel_false (table : Nat) (index : Fin 512) :
    walkLevel machine table index false reach =
      (if present (readEntry machine.memory (reach machine table) index) then
        some (tableAddress (readEntry machine.memory (reach machine table) index)) else none,
        machine) := by
  simp only [walkLevel]
  split <;> rfl

/-- The tables on the way to an address are accessed at their own addresses. -/
def ReachesTables (reach : Reach) (machine : Machine) (root virt : Nat) : Prop :=
  ∀ path table, path <+: tablePath virt → tableAt machine.memory root path = some table →
    ∀ offset < pageSize, reach machine (table + offset) = table + offset

theorem ReachesTables.table (tables : ReachesTables reach machine root virt)
    {path : List (Fin 512)} {table : Nat} (onWay : path <+: tablePath virt)
    (reached : tableAt machine.memory root path = some table) :
    reach machine table = table :=
  tables path table onWay reached 0 (by decide)

/-- In a well-formed tree the software walk finds the page directory that the
processor finds; from there it goes on without looking at the page-size bit. -/
theorem userEntry_reach (valid : WellFormed machine root)
    (tables : ReachesTables reach machine root virt) :
    userEntry machine root virt reach =
      (tableAt machine.memory root [pml4Index virt, pdptIndex virt]).bind fun pd =>
        if present (readEntry machine.memory pd (pdIndex virt)) then
          some (entryAt machine.memory (reach machine
            (tableAddress (readEntry machine.memory pd (pdIndex virt)) + 8 * ptIndex virt)))
        else none := by
  have rootReached : tableAt machine.memory root [] = some root := rfl
  simp only [userEntry, walk, walkLevel_false, tables.table List.nil_prefix rootReached]
  cases used1 : present (readEntry machine.memory root (pml4Index virt)) with
  | false =>
      have gone : child machine.memory root (pml4Index virt) = none :=
        child_eq_none_of_not_present used1
      simp [tableAt, descend, gone]
  | true =>
  have small1 := valid.no_gigabyte [] root (pml4Index virt) (by simp) rootReached used1
  have pdptReached := (tableAt_snoc rootReached (pml4Index virt)).trans
    (child_eq_some_iff.mpr ⟨used1, small1, rfl⟩)
  simp only [List.nil_append] at pdptReached
  have below := tableAt_snoc pdptReached (pdptIndex virt)
  simp only [List.cons_append, List.nil_append] at below
  simp only [↓reduceIte, tables.table (by simp [tablePath]) pdptReached]
  set pdpt := tableAddress (readEntry machine.memory root (pml4Index virt))
  cases used2 : present (readEntry machine.memory pdpt (pdptIndex virt)) with
  | false =>
      rw [child_eq_none_of_not_present used2] at below
      simp [below]
  | true =>
  have small2 := valid.no_gigabyte [pml4Index virt] pdpt (pdptIndex virt) (by simp)
    pdptReached used2
  have pdReached := below.trans (child_eq_some_iff.mpr ⟨used2, small2, rfl⟩)
  simp only [pdReached, ↓reduceIte, Option.bind_some, tables.table (by simp [tablePath]) pdReached]
  set pd := tableAddress (readEntry machine.memory pdpt (pdptIndex virt))
  cases used3 : present (readEntry machine.memory pd (pdIndex virt)) with
  | false => simp
  | true => simp

theorem userEntry_eq (valid : WellFormed machine root) :
    userEntry machine root virt =
      (tableAt machine.memory root [pml4Index virt, pdptIndex virt]).bind fun pd =>
        if present (readEntry machine.memory pd (pdIndex virt)) then
          some (readEntry machine.memory
            (tableAddress (readEntry machine.memory pd (pdIndex virt))) (ptIndex virt))
        else none :=
  userEntry_reach valid fun _ _ _ _ _ _ => rfl

/-- Outside 2 MiB pages the software walk ends at the page table. -/
theorem page_of_userEntry (valid : WellFormed machine root)
    (tables : ReachesTables reach machine root virt)
    (ordinary : ¬ LargePage machine.memory root virt) {pte : Entry}
    (found : userEntry machine root virt reach = some pte) :
    ∃ pt, tableAt machine.memory root (tablePath virt) = some pt ∧
      pte = readEntry machine.memory pt (ptIndex virt) := by
  rw [userEntry_reach valid tables] at found
  obtain ⟨pd, reached, entry⟩ := Option.bind_eq_some_iff.mp found
  split at entry
  · next used =>
      rw [Option.some.injEq] at entry
      have small : huge (readEntry machine.memory pd (pdIndex virt)) = false := by
        cases large : huge (readEntry machine.memory pd (pdIndex virt)) with
        | false => rfl
        | true => exact absurd ⟨pd, reached, used, large⟩ ordinary
      have page := (tableAt_snoc reached (pdIndex virt)).trans
        (child_eq_some_iff.mpr ⟨used, small, rfl⟩)
      have inside := (ptIndex virt).isLt
      rw [tables _ _ (List.prefix_refl _) page _ (by simp only [pageSize]; omega)] at entry
      exact ⟨_, page, entry.symm⟩
  · cases entry

theorem physicalAddress_eq (pte : Entry) (address : Nat) :
    physicalAddress pte address = frame pte + address % pageSize := by
  have aligned := frame_aligned pte
  have split : frame pte = 2 ^ 12 * (frame pte / 4096) := by omega
  rw [physicalAddress, split]
  exact (Nat.two_pow_add_eq_or_of_lt (Nat.mod_lt _ (by norm_num)) _).symm

/-- What the copy routines check at a page is what the processor checks. -/
theorem ringThree_of_page (valid : WellFormed machine root) (low : virt < userLimit)
    {pt : Nat} (reached : tableAt machine.memory root (tablePath virt) = some pt)
    (used : present (readEntry machine.memory pt (ptIndex virt)) = true)
    (access : user (readEntry machine.memory pt (ptIndex virt)) = true) {write : Bool}
    (allowed : write = true → writable (readEntry machine.memory pt (ptIndex virt)) = true) :
    hardwareWalk machine.memory root virt =
        some (combine (frame (readEntry machine.memory pt (ptIndex virt)))
          [readEntry machine.memory pt (ptIndex virt)]) ∧
      ringThree machine.memory root virt write =
        some (physicalAddress (readEntry machine.memory pt (ptIndex virt)) virt) := by
  have canonical : Canonical virt := .inl (low.trans_le (by norm_num))
  have walked : hardwareWalk machine.memory root virt =
      some (combine (frame (readEntry machine.memory pt (ptIndex virt)))
        [readEntry machine.memory pt (ptIndex virt)]) := by
    rw [valid.hardwareWalk_eq canonical, view_of_page reached, pageView, used, if_pos rfl]
  refine ⟨walked, ?_⟩
  rw [ringThree, walked, physicalAddress_eq]
  cases write with
  | false => simp [combine, access]
  | true => simp [combine, access, allowed rfl]

/-- The software walk finds the page of a user translation. -/
theorem userEntry_of_user (valid : WellFormed machine root) {translation : Translation}
    (found : hardwareWalk machine.memory root virt = some translation)
    (access : translation.user = true) :
    ∃ pte, userEntry machine root virt = some pte ∧ present pte = true ∧
      frame pte = translation.frame := by
  have canonical : Canonical virt := by
    by_contra outside
    simp [hardwareWalk, outside] at found
  rw [valid.hardwareWalk_eq canonical] at found
  cases directory : tableAt machine.memory root [pml4Index virt, pdptIndex virt] with
  | none =>
      rw [view_of_no_directory directory] at found
      cases found
  | some pd =>
  cases used : present (readEntry machine.memory pd (pdIndex virt)) with
  | false =>
      rw [view_of_directory directory (child_eq_none_of_not_present used)] at found
      simp [hugeView, used] at found
  | true =>
  cases large : huge (readEntry machine.memory pd (pdIndex virt)) with
  | true =>
      rw [view_of_directory directory (child_eq_none_of_huge large), hugeView, used,
        if_pos rfl] at found
      have closed := valid.large_closed _ pd (pdIndex virt) (by simp) directory used large
      cases found
      simp [combine, closed] at access
  | false =>
  have reached : tableAt machine.memory root (tablePath virt) =
      some (tableAddress (readEntry machine.memory pd (pdIndex virt))) :=
    (tableAt_snoc directory (pdIndex virt)).trans
      (child_eq_some_iff.mpr ⟨used, large, rfl⟩)
  rw [view_of_page reached, pageView] at found
  split at found
  · next leafUsed =>
      cases found
      refine ⟨_, ?_, leafUsed, rfl⟩
      rw [userEntry_eq valid, directory, Option.bind_some, used, if_pos rfl]
  · cases found

theorem ringThree_of_largePage (valid : WellFormed machine root)
    (large : LargePage machine.memory root virt) (write : Bool) :
    ringThree machine.memory root virt write = none := by
  obtain ⟨pd, reached, used, isLarge⟩ := large
  by_cases canonical : Canonical virt
  · have closed := valid.large_closed _ pd (pdIndex virt) (by simp) reached used isLarge
    rw [ringThree, valid.hardwareWalk_eq canonical,
      view_of_directory reached (child_eq_none_of_huge isLarge), hugeView, used, if_pos rfl]
    simp [combine, closed]
  · simp [ringThree, hardwareWalk, canonical]

end Walk

/-! ## Accesses within a page -/

section Pages

variable {memory tables : ByteMemory} {root virt address : Nat} {write : Bool}

/-- The bytes of a page are at consecutive addresses. -/
theorem ringThree_succ (found : ringThree memory root virt write = some address)
    (inside : virt % pageSize + 1 < pageSize) :
    ringThree memory root (virt + 1) write = some (address + 1) := by
  have samePage : (virt + 1) / pageSize = virt / pageSize := by
    simp only [pageSize] at *
    omega
  have offset : (virt + 1) % pageSize = virt % pageSize + 1 := by
    simp only [pageSize] at *
    omega
  have walked : hardwareWalk memory root (virt + 1) = hardwareWalk memory root virt := by
    rw [← hardwareWalk_page, samePage, hardwareWalk_page]
  simp only [ringThree, walked, offset] at found ⊢
  split at found
  · split at found
    · next allowed =>
        cases found
        rw [if_pos allowed, Nat.add_assoc]
    · cases found
  · cases found

theorem ringThreeStores_append (first second : List UInt8) :
    ringThreeStores tables root virt (first ++ second) memory =
      (ringThreeStores tables root virt first memory).bind
        (ringThreeStores tables root (virt + first.length) second) := by
  induction first generalizing virt memory with
  | nil => rfl
  | cons byte first ih =>
  simp only [List.cons_append, ringThreeStores, List.length_cons]
  cases ringThree tables root virt true with
  | none => rfl
  | some address =>
      simp only [Option.bind_some]
      rw [ih, show virt + (first.length + 1) = virt + 1 + first.length by omega]

theorem ringThreeStores_page {bytes : List UInt8}
    (found : ringThree tables root virt true = some address)
    (inside : virt % pageSize + bytes.length ≤ pageSize) :
    ringThreeStores tables root virt bytes memory =
      some (memory.storeBytes address bytes) := by
  induction bytes generalizing virt memory address with
  | nil => simp [ringThreeStores]
  | cons byte bytes ih =>
  simp only [List.length_cons] at inside
  rw [ByteMemory.storeBytes_cons]
  simp only [ringThreeStores, found, Option.bind_some]
  cases bytes with
  | nil => simp [ringThreeStores]
  | cons next bytes =>
      simp only [List.length_cons] at inside
      apply ih (ringThree_succ found (by omega))
      simp only [List.length_cons, pageSize] at *
      omega

theorem ringThree_of_stores {bytes : List UInt8} {result : ByteMemory}
    (stored : ringThreeStores tables root virt bytes memory = some result) {offset : Nat}
    (inside : offset < bytes.length) :
    ∃ address, ringThree tables root (virt + offset) true = some address := by
  induction bytes generalizing virt memory offset with
  | nil => cases inside
  | cons byte bytes ih =>
  obtain ⟨address, found, rest⟩ := Option.bind_eq_some_iff.mp stored
  cases offset with
  | zero => exact ⟨address, found⟩
  | succ offset =>
      rw [show virt + (offset + 1) = virt + 1 + offset by omega]
      exact ih rest (Nat.lt_of_succ_lt_succ inside)

theorem ringThreeLoads_append (first second : Nat) :
    ringThreeLoads memory root virt (first + second) =
      (ringThreeLoads memory root virt first).bind fun bytes =>
        (ringThreeLoads memory root (virt + first) second).map (bytes ++ ·) := by
  induction first generalizing virt with
  | zero => simp [ringThreeLoads]
  | succ first ih =>
  rw [show first + 1 + second = first + second + 1 by omega]
  simp only [ringThreeLoads]
  cases ringThree memory root virt false with
  | none => rfl
  | some address =>
  simp only [Option.bind_some]
  rw [ih, show virt + (first + 1) = virt + 1 + first by omega]
  cases ringThreeLoads memory root (virt + 1) first with
  | none => rfl
  | some bytes =>
      cases ringThreeLoads memory root (virt + 1 + first) second <;> rfl

theorem ringThreeLoads_page {size : Nat}
    (found : ringThree memory root virt false = some address)
    (inside : virt % pageSize + size ≤ pageSize) :
    ringThreeLoads memory root virt size = some (memory.loadBytes address size) := by
  induction size generalizing virt address with
  | zero => rfl
  | succ size ih =>
  simp only [ringThreeLoads, found, Option.bind_some, ByteMemory.loadBytes]
  cases size with
  | zero => rfl
  | succ size =>
      rw [ih (ringThree_succ found (by omega))
        (by simp only [pageSize] at *; omega)]
      rfl

theorem ringThree_of_loads {size offset : Nat} {bytes : List UInt8}
    (loaded : ringThreeLoads memory root virt size = some bytes) (inside : offset < size) :
    ∃ address, ringThree memory root (virt + offset) false = some address := by
  induction size generalizing virt bytes offset with
  | zero => cases inside
  | succ size ih =>
  obtain ⟨address, found, rest⟩ := Option.bind_eq_some_iff.mp loaded
  cases offset with
  | zero => exact ⟨address, found⟩
  | succ offset =>
      obtain ⟨tail, loadedTail, -⟩ := Option.map_eq_some_iff.mp rest
      rw [show virt + (offset + 1) = virt + 1 + offset by omega]
      exact ih loadedTail (Nat.lt_of_succ_lt_succ inside)

end Pages

/-! ## The copy routines -/

section Copies

variable {machine machine' : Machine} {root userAddress size : Nat} {reach : Reach}

/-- A page is accessed at its own address, as long as the tables stay as they are. -/
def Straight (reach : Reach) (machine : Machine) (root page : Nat) : Prop :=
  ∀ state : Machine, state.cr3 = machine.cr3 →
    (∀ path table, path.length ≤ 3 → tableAt machine.memory root path = some table →
      ByteMemory.AgreeOn state.memory machine.memory table (table + 4096)) →
    page % 4096 = 0 → ∀ offset < pageSize, reach state (page + offset) = page + offset

/-- What a copy accesses: the pages of the range and the tables on the way to them. -/
structure Accessed (page : Nat → Prop) (memory : ByteMemory)
    (root userAddress size : Nat) : Prop where
  tables : ∀ offset < size, ∀ path table, path <+: tablePath (userAddress + offset) →
    tableAt memory root path = some table → page table
  frames : ∀ offset < size, ∀ translation,
    hardwareWalk memory root (userAddress + offset) = some translation →
    page translation.frame

theorem Accessed.mono {page page' : Nat → Prop} {memory : ByteMemory}
    (accessed : Accessed page memory root userAddress size)
    (weaker : ∀ frame, page frame → page' frame) :
    Accessed page' memory root userAddress size where
  tables := fun offset inside path table onWay reached =>
    weaker _ (accessed.tables offset inside path table onWay reached)
  frames := fun offset inside translation found =>
    weaker _ (accessed.frames offset inside translation found)

theorem InPlace.of_pageMap {page : Nat} (inPlace : InPlace machine.memory root page)
    (same : pageMap machine' root (page / pageSize) = pageMap machine root (page / pageSize)) :
    InPlace machine'.memory root page := by
  simp only [pageMap, hardwareWalk_page] at same
  rwa [InPlace, same]

/-- An identity page leads the kernel to the page that it means. -/
theorem straight_of_inPlace (valid : WellFormed machine root) (current : machine.cr3 = root)
    {page : Nat} (inPlace : InPlace machine.memory root page) :
    Straight paged machine root page := by
  intro state cr3 kept aligned offset inside
  obtain ⟨translation, found, same⟩ := Option.map_eq_some_iff.mp inPlace
  have again : hardwareWalk state.memory root (page + offset) = some translation := by
    have pages := congrFun (@pageMap_congr machine { state with pmm := machine.pmm } root valid
      (valid.elsewhere kept valid.owned) (leafView_elsewhere kept)) (page / pageSize)
    simp only [pageMap, hardwareWalk_page] at pages
    rw [← hardwareWalk_page, show (page + offset) / pageSize = page / pageSize by
      simp only [pageSize] at *; omega, hardwareWalk_page, pages, found]
  simp only [paged, cr3, current, again, same, pageSize] at *
  omega

/-- Tables of the tree that a range does not map. -/
def ClearOfTables (memory : ByteMemory) (root userAddress size : Nat) : Prop :=
  ∀ offset < size, ∀ translation,
    hardwareWalk memory root (userAddress + offset) = some translation →
    ∀ path, path.length ≤ 3 → tableAt memory root path ≠ some translation.frame

/-- Addresses of a range that lie outside 2 MiB pages. -/
def ClearOfLargePages (memory : ByteMemory) (root userAddress size : Nat) : Prop :=
  ∀ offset < size, ¬ LargePage memory root (userAddress + offset)

/-- State of `syscall_copy_to_user_data` after `copied` bytes: they have been stored
as ring 3 would have stored them, and the tables are as at the beginning. -/
structure Copied (machine : Machine) (root userAddress : Nat) (bytes : List UInt8)
    (copied : Nat) (state : Machine) : Prop where
  stored : ringThreeStores machine.memory root userAddress (bytes.take copied)
    machine.memory = some state.memory
  tables : ∀ path table, path.length ≤ 3 →
    tableAt machine.memory root path = some table →
    ByteMemory.AgreeOn state.memory machine.memory table (table + 4096)
  allocator : state.pmm = machine.pmm
  cr3 : state.cr3 = machine.cr3

/-- The kernel accesses the address that the walk of ring 3 yields. -/
theorem Accessed.reach_physicalAddress
    (straight : Accessed (Straight reach machine root) machine.memory root userAddress size)
    {offset : Nat} (inside : offset < size) {pte : Entry} {entries : List Entry}
    (walked : hardwareWalk machine.memory root (userAddress + offset) =
      some (combine (frame pte) entries)) (cr3 : machine'.cr3 = machine.cr3)
    (kept : ∀ path table, path.length ≤ 3 → tableAt machine.memory root path = some table →
      ByteMemory.AgreeOn machine'.memory machine.memory table (table + 4096)) :
    reach machine' (physicalAddress pte (userAddress + offset)) =
      physicalAddress pte (userAddress + offset) := by
  rw [physicalAddress_eq]
  exact straight.frames offset inside _ walked machine' cr3 kept (frame_aligned pte) _
    (Nat.mod_lt _ (by decide))

/-- One page of `syscall_copy_to_user_data`. -/
theorem Copied.step (valid : WellFormed machine root) {bytes : List UInt8}
    (inLow : userAddress + bytes.length ≤ userLimit)
    (ordinary : ClearOfLargePages machine.memory root userAddress bytes.length)
    (clear : ClearOfTables machine.memory root userAddress bytes.length)
    (straight : Accessed (Straight reach machine root) machine.memory root userAddress
      bytes.length)
    (copied chunk : Nat) (state state' : Machine) (inside : copied < bytes.length)
    (chunkEq : chunk = chunkSize (userAddress + copied) (bytes.length - copied))
    (before : Copied machine root userAddress bytes copied state)
    (done : copyToUserChunk state root (userAddress + copied)
      ((bytes.drop copied).take chunk) reach = some state') :
    Copied machine root userAddress bytes (copied + chunk) state' := by
  have stateValid : WellFormed state root := by
    apply valid.elsewhere before.tables
    rw [before.allocator]
    exact valid.owned
  have samePath (path : List (Fin 512)) (short : path.length ≤ 3) :=
    @tableAt_elsewhere machine state root before.tables path short
  have stateTables : ReachesTables reach state root (userAddress + copied) :=
    fun path table onWay reached =>
      straight.tables copied inside path table onWay
        ((samePath path onWay.length_le).symm.trans reached) state before.cr3 before.tables
        (stateValid.table_aligned onWay.length_le reached)
  have stateOrdinary : ¬ LargePage state.memory root (userAddress + copied) := by
    rintro ⟨pd, reached, used, large⟩
    rw [samePath _ (by simp)] at reached
    rw [readEntry_elsewhere before.tables (by simp) reached] at used large
    exact ordinary copied inside ⟨pd, reached, used, large⟩
  simp only [copyToUserChunk] at done
  split at done
  case h_1 => cases done
  case h_2 pte found =>
  split at done
  case isTrue => cases done
  case isFalse allowed =>
  simp only [Bool.or_eq_true, Bool.not_eq_eq_eq_not, Bool.not_true, not_or,
    Bool.not_eq_false] at allowed
  obtain ⟨⟨used, access⟩, write⟩ := allowed
  obtain ⟨pt, ptReached, rfl⟩ :=
    page_of_userEntry stateValid stateTables stateOrdinary found
  rw [samePath _ (length_tablePath _).le] at ptReached
  rw [readEntry_elsewhere before.tables (length_tablePath _).le ptReached]
    at done used access write
  obtain ⟨walked, target⟩ := ringThree_of_page valid (by omega) ptReached used access
    (fun _ : true = true => write)
  set pte := readEntry machine.memory pt (ptIndex (userAddress + copied))
  rw [straight.reach_physicalAddress inside walked before.cr3 before.tables] at done
  have length : ((bytes.drop copied).take chunk).length = chunk := by
    simp only [List.length_take, List.length_drop, chunkEq, chunkSize]
    omega
  have fits : (userAddress + copied) % pageSize + chunk ≤ pageSize := by
    simp only [chunkEq, chunkSize, pageSize]
    omega
  cases done
  exact {
    stored := by
      have prefixLength : (bytes.take copied).length = copied := by
        simp only [List.length_take]
        omega
      rw [List.take_add, ringThreeStores_append, before.stored, Option.bind_some,
        prefixLength]
      exact ringThreeStores_page target (by rw [length]; exact fits)
    tables := by
      intro path table short reached
      refine ByteMemory.AgreeOn.trans ?_ (before.tables path table short reached)
      apply ByteMemory.agreeOn_storeBytes
      have tableAligned := valid.table_aligned short reached
      have frameAligned := frame_aligned pte
      have different : table ≠ frame pte := by
        intro same
        exact clear copied inside _ walked path short (same ▸ reached)
      rw [length, physicalAddress_eq]
      simp only [pageSize] at fits ⊢
      omega
    allocator := before.allocator
    cr3 := before.cr3 }

/-- `syscall_copy_to_user_data` does what ring 3 could do, exactly when the range is
clear of 2 MiB pages. -/
theorem copyToUserData_iff (valid : WellFormed machine root) {bytes : List UInt8}
    (clear : ClearOfTables machine.memory root userAddress bytes.length)
    (straight : Accessed (Straight reach machine root) machine.memory root userAddress
      bytes.length)
    (done : copyToUserData machine root userAddress (some bytes) bytes.length reach =
      (true, machine')) :
    ringThreeStores machine.memory root userAddress bytes machine.memory =
        some machine'.memory ↔
      ClearOfLargePages machine.memory root userAddress bytes.length := by
  constructor
  · intro stored offset inside large
    obtain ⟨address, found⟩ := ringThree_of_stores stored inside
    rw [ringThree_of_largePage valid large] at found
    cases found
  intro ordinary
  unfold copyToUserData at done
  split at done
  · cases done
  split at done
  · next empty =>
      rw [List.length_eq_zero_iff] at empty
      cases done
      rw [empty]
      rfl
  dsimp only at done
  split at done
  · cases done
  · next bounds =>
      have final := pageLoop_invariant (Copied machine root userAddress bytes)
        (Copied.step valid (by omega) ordinary clear straight) (Nat.zero_le _)
        { stored := rfl
          tables := fun _ _ _ _ => ByteMemory.AgreeOn.refl _ _ _
          allocator := rfl
          cr3 := rfl } done
      simpa using final.stored

theorem Accessed.reachesTables (valid : WellFormed machine root)
    (straight : Accessed (Straight reach machine root) machine.memory root userAddress size)
    {offset : Nat} (inside : offset < size) :
    ReachesTables reach machine root (userAddress + offset) := fun path table onWay reached =>
  straight.tables offset inside path table onWay reached machine rfl
    (fun _ _ _ _ => ByteMemory.AgreeOn.refl _ _ _)
    (valid.table_aligned onWay.length_le reached)

theorem copyUserChunk_loads (valid : WellFormed machine root) {copied chunk : Nat}
    {bytes : List UInt8} (low : userAddress + copied < userLimit)
    (ordinary : ¬ LargePage machine.memory root (userAddress + copied))
    (straight : Accessed (Straight reach machine root) machine.memory root userAddress size)
    (inside : copied < size) (fits : (userAddress + copied) % pageSize + chunk ≤ pageSize)
    (done : copyUserChunk machine root (userAddress + copied) chunk reach = some bytes) :
    ringThreeLoads machine.memory root (userAddress + copied) chunk = some bytes := by
  simp only [copyUserChunk] at done
  split at done
  case h_1 => cases done
  case h_2 pte found =>
  split at done
  case isTrue => cases done
  case isFalse allowed =>
  simp only [Bool.or_eq_true, Bool.not_eq_eq_eq_not, Bool.not_true, not_or,
    Bool.not_eq_false] at allowed
  obtain ⟨pt, reached, rfl⟩ :=
    page_of_userEntry valid (straight.reachesTables valid inside) ordinary found
  obtain ⟨walked, target⟩ := @ringThree_of_page _ _ _ valid low _ reached allowed.1 allowed.2
    false (fun impossible => by cases impossible)
  rw [straight.reach_physicalAddress inside walked rfl fun _ _ _ _ =>
    ByteMemory.AgreeOn.refl _ _ _] at done
  cases done
  exact ringThreeLoads_page target fits

/-- `syscall_copy_user_data` reads what ring 3 could read, exactly when the range is
clear of 2 MiB pages. -/
theorem copyUserData_iff (valid : WellFormed machine root) {nonNull : Bool}
    {bytes : List UInt8}
    (straight : Accessed (Straight reach machine root) machine.memory root userAddress size)
    (done : copyUserData machine root userAddress nonNull size reach = (true, bytes)) :
    ringThreeLoads machine.memory root userAddress size = some bytes ↔
      ClearOfLargePages machine.memory root userAddress size := by
  constructor
  · intro loaded offset inside large
    obtain ⟨address, found⟩ := ringThree_of_loads loaded inside
    rw [ringThree_of_largePage valid large] at found
    cases found
  intro ordinary
  unfold copyUserData at done
  split at done
  · cases done
  split at done
  · next empty =>
      cases done
      rw [empty]
      rfl
  split at done
  · cases done
  next bounds =>
  simp only [Bool.or_eq_true, Bool.not_eq_eq_eq_not, Bool.not_true, decide_eq_true_eq,
    not_or] at bounds
  refine pageLoop_invariant
    (fun copied destination =>
      ringThreeLoads machine.memory root userAddress copied = some destination)
    ?_ (Nat.zero_le _) rfl done
  intro copied chunk destination destination' inside chunkEq before handled
  obtain ⟨part, copiedPart, rfl⟩ := Option.map_eq_some_iff.mp handled
  have fits : (userAddress + copied) % pageSize + chunk ≤ pageSize := by
    simp only [chunkEq, chunkSize, pageSize]
    omega
  have loaded := copyUserChunk_loads valid (by omega) (ordinary copied inside) straight
    inside fits copiedPart
  rw [ringThreeLoads_append, before, Option.bind_some, loaded]
  rfl

/-- A string that was copied is longer than what had been copied before. -/
theorem length_lt_of_copyUserStringLoop {remaining : Nat} {destination data : List UInt8}
    (done : copyUserStringLoop machine root userAddress remaining destination reach =
      (true, data)) : destination.length < data.length := by
  induction remaining generalizing destination with
  | zero => cases done
  | succ remaining ih =>
  simp only [copyUserStringLoop] at done
  split at done
  · cases done
  split at done
  · cases done
  split at done
  · cases done
  split at done
  · cases done
    simp
  · have longer := ih done
    simp only [List.length_append, List.length_singleton] at longer
    omega

theorem copyUserStringLoop_loads (valid : WellFormed machine root) {remaining : Nat}
    {destination data : List UInt8}
    (inLow : userAddress + destination.length ≤ userLimit)
    (before : ringThreeLoads machine.memory root userAddress destination.length =
      some destination)
    (done : copyUserStringLoop machine root userAddress remaining destination reach =
      (true, data))
    (straight : Accessed (Straight reach machine root) machine.memory root userAddress
      data.length)
    (ordinary : ClearOfLargePages machine.memory root userAddress data.length) :
    ringThreeLoads machine.memory root userAddress data.length = some data := by
  have longer := length_lt_of_copyUserStringLoop done
  induction remaining generalizing destination with
  | zero => cases done
  | succ remaining ih =>
  have noWrap : (userAddress + destination.length) % 2 ^ 64 =
      userAddress + destination.length := by
    apply Nat.mod_eq_of_lt
    simp only [userLimit] at inLow
    omega
  simp only [copyUserStringLoop, noWrap] at done
  split at done
  case isTrue => cases done
  case isFalse bounds =>
  split at done
  case h_1 => cases done
  case h_2 pte found =>
  split at done
  case isTrue => cases done
  case isFalse allowed =>
  simp only [Bool.or_eq_true, Bool.not_eq_eq_eq_not, Bool.not_true, not_or,
    Bool.not_eq_false] at allowed
  obtain ⟨pt, reached, rfl⟩ :=
    page_of_userEntry valid (straight.reachesTables valid longer)
      (ordinary destination.length longer) found
  obtain ⟨walked, target⟩ := @ringThree_of_page _ _ _ valid (by omega) _ reached allowed.1
    allowed.2 false (fun impossible => by cases impossible)
  simp only [straight.reach_physicalAddress longer walked rfl fun _ _ _ _ =>
    ByteMemory.AgreeOn.refl _ _ _] at done
  set byte := machine.memory (physicalAddress
    (readEntry machine.memory pt (ptIndex (userAddress + destination.length)))
    (userAddress + destination.length))
  have after : ringThreeLoads machine.memory root userAddress
      (destination ++ [byte]).length = some (destination ++ [byte]) := by
    rw [List.length_append, ringThreeLoads_append, before]
    simp only [Option.bind_some, List.length_singleton, ringThreeLoads, target,
      Option.map_some]
    rfl
  split at done
  · cases done
    exact after
  · apply ih _ after done (length_lt_of_copyUserStringLoop done)
    simp only [List.length_append, List.length_singleton]
    omega

/-- `syscall_copy_user_string` reads what ring 3 could read, exactly when the string
is clear of 2 MiB pages. -/
theorem copyUserString_iff (valid : WellFormed machine root) {nonNull : Bool}
    {capacity : Nat} {data : List UInt8}
    (straight : Accessed (Straight reach machine root) machine.memory root userAddress
      data.length)
    (done : copyUserString machine root userAddress nonNull capacity reach =
      (true, data)) :
    ringThreeLoads machine.memory root userAddress data.length = some data ↔
      ClearOfLargePages machine.memory root userAddress data.length := by
  constructor
  · intro loaded offset inside large
    obtain ⟨address, found⟩ := ringThree_of_loads loaded inside
    rw [ringThree_of_largePage valid large] at found
    cases found
  · intro ordinary
    unfold copyUserString at done
    split at done
    · cases done
    · next bounds =>
        simp only [not_or] at bounds
        refine copyUserStringLoop_loads valid ?_ rfl done straight ordinary
        simp only [List.length_nil]
        omega

end Copies

/-- In every address space that is created from the kernel's tree and edited by any
calls of `vmm_map_page_pml4` and `vmm_unmap_page_pml4`, a copy that succeeds while the
space is current accesses exactly what ring 3 could access if and only if its range is
clear of 2 MiB pages.  The identity pages of what the copy accesses are in their place;
for stores the range must not map the tables themselves. -/
theorem user_copies_sound {boot machine machine' : Machine} {source root : Nat}
    {events : List VmmEvent} (kernel : KernelSpace boot (sourceRoot boot source))
    (created : newAddressSpace boot source = some (root, machine))
    (run : Run (VmmStep root) machine events machine') (current : machine'.cr3 = root) :
    (∀ userAddress bytes final,
      copyToUserData machine' root userAddress (some bytes) bytes.length paged =
        (true, final) →
      ClearOfTables machine'.memory root userAddress bytes.length →
      Accessed (InPlace machine'.memory root) machine'.memory root userAddress
        bytes.length →
      (ringThreeStores machine'.memory root userAddress bytes machine'.memory =
          some final.memory ↔
        ClearOfLargePages machine'.memory root userAddress bytes.length)) ∧
    (∀ userAddress nonNull size bytes,
      copyUserData machine' root userAddress nonNull size paged = (true, bytes) →
      Accessed (InPlace machine'.memory root) machine'.memory root userAddress size →
      (ringThreeLoads machine'.memory root userAddress size = some bytes ↔
        ClearOfLargePages machine'.memory root userAddress size)) ∧
    (∀ userAddress nonNull capacity data,
      copyUserString machine' root userAddress nonNull capacity paged = (true, data) →
      Accessed (InPlace machine'.memory root) machine'.memory root userAddress
        data.length →
      (ringThreeLoads machine'.memory root userAddress data.length = some data ↔
        ClearOfLargePages machine'.memory root userAddress data.length)) := by
  have valid := (wellFormed_of_run kernel created run).2
  have straight := fun frame => @straight_of_inPlace machine' root valid current frame
  exact ⟨fun _ _ _ done clear inPlace =>
      copyToUserData_iff valid clear (inPlace.mono straight) done,
    fun _ _ _ _ done inPlace => copyUserData_iff valid (inPlace.mono straight) done,
    fun _ _ _ _ done inPlace => copyUserString_iff valid (inPlace.mono straight) done⟩

section Boot

variable {memory : ByteMemory} {machine state : Machine} {root : Nat}

/-- The boot tables map the first gigabyte to itself. -/
theorem inPlace_after_boot
    (created : newAddressSpace (bootMachine memory) 0 = some (root, machine)) {page : Nat}
    (aligned : page % 4096 = 0) (low : page < 2 ^ 30) : InPlace machine.memory root page := by
  obtain ⟨_, _, pd, again, directory, leaves, -⟩ := newAddressSpace_bootMachine memory
  rw [created] at again
  cases again
  have valid := (wellFormed_of_run (kernelSpace_bootMachine memory) created .start).2
  have leaf : ∀ index : Fin 512,
      huge (BitVec.ofNat 64 ((index : Nat) * 2 ^ 21 + 0x83)) = true ∧
      present (BitVec.ofNat 64 ((index : Nat) * 2 ^ 21 + 0x83)) = true ∧
      hugeFrame (BitVec.ofNat 64 ((index : Nat) * 2 ^ 21 + 0x83)) = index * 2 ^ 21 := by
    decide +kernel
  have first : pml4Index page = 0 ∧ pdptIndex page = 0 := by
    simp only [pml4Index, pdptIndex, Fin.ext_iff, Fin.val_ofNat]
    omega
  have here : tableAt machine.memory root [pml4Index page, pdptIndex page] = some pd := by
    rw [first.1, first.2]
    exact directory
  rw [InPlace, valid.hardwareWalk_eq (.inl (by omega)), view_of_directory here
    (child_eq_none_of_huge (by rw [leaves]; exact (leaf _).1)), leaves, hugeView,
    if_pos (leaf _).2.1, Option.map_some, combine, (leaf _).2.2]
  congr 1
  simp only [pdIndex, ptIndex, Fin.val_ofNat]
  omega

/-- The tables of the lower half are among the pages that the allocator had. -/
theorem table_lt_after_boot (own : ∃ level, OwnSpace (bootMachine memory) state root level)
    (valid : WellFormed state root) {path : List (Fin 512)} {table : Nat}
    (short : path.length ≤ 3) (lower : ∀ index ∈ path.head?, index.val < 256)
    (reached : tableAt state.memory root path = some table) : table < 0x118000 :=
  own.elim fun _ own => bootPmm_available_lt (own.level_of_table valid short lower reached).2

theorem owns_after_boot
    (created : newAddressSpace (bootMachine memory) 0 = some (root, machine)) :
    ∃ level, OwnSpace (bootMachine memory) machine root level :=
  newAddressSpace_owns ((kernelSpace_bootMachine memory).toWellFormed.copyable
    (by decide : 0x101000 < 2 ^ 52)) created

theorem lower_of_onWay {path : List (Fin 512)} {virt : Nat} (low : virt < userLimit)
    (onWay : path <+: tablePath virt) : ∀ index ∈ path.head?, index.val < 256 := by
  rintro index member
  cases path with
  | nil => cases member
  | cons first path =>
      cases member
      rw [(List.cons_prefix_cons.mp onWay).1]
      simp only [pml4Index, Fin.val_ofNat, userLimit] at *
      omega

end Boot

/-- A copy from a page that was added to an address space. -/
theorem user_copies_sound_after_boot :
    ∃ root machine mapped,
      newAddressSpace (bootMachine fun _ => 0) 0 = some (root, machine) ∧
      mapPagePml4 machine root 0x40000000 0x900000 7 = (true, mapped) ∧
      ∀ bytes,
        copyUserData { mapped with cr3 := root } root 0x40000000 true 4096 paged =
          (true, bytes) →
        (ringThreeLoads mapped.memory root 0x40000000 4096 = some bytes ↔
          ClearOfLargePages mapped.memory root 0x40000000 4096) := by
  obtain ⟨root, machine, -, created, -, -, left⟩ := newAddressSpace_bootMachine fun _ => 0
  have kernel := kernelSpace_bootMachine fun _ => 0
  obtain ⟨nonzero, valid⟩ := wellFormed_of_run kernel created .start
  have plenty : machine.pmm.Plenty (9 + 4) := by
    rw [left]
    exact plenty_newAddressSpace
  obtain ⟨mapped, called, -⟩ := mapPagePml4_succeeds nonzero plenty 0x40000000 0x900000 7
  have step : VmmStep root machine (.map 0x40000000 0x900000 7 true) mapped := .map called
  have validMapped := step.wellFormed nonzero valid
  have switched : VmmStep root mapped .other { mapped with cr3 := root } :=
    .other fun path table short reached =>
      ⟨ByteMemory.AgreeOn.refl _ _ _, validMapped.owned path table short reached⟩
  have pages : pageMap mapped root = Function.update (pageMap machine root)
      (0x40000000 / pageSize) (some (requested 0x900000 7)) := by
    rcases mapPagePml4_spec 0x40000000 0x900000 7 valid with ⟨failed, -⟩ | ⟨-, replaced⟩
    · rw [called] at failed
      cases failed
    · rw [called, pageView_leafEntry (by decide)] at replaced
      exact pageMap_replaces valid replaced (by decide)
  have inPlace {page : Nat} (aligned : page % 4096 = 0) (low : page < 0x40000000) :
      InPlace mapped.memory root page := by
    apply (inPlace_after_boot created aligned low).of_pageMap
    rw [pages, Function.update_of_ne]
    simp only [pageSize]
    omega
  refine ⟨root, machine, mapped, created, called, fun bytes done =>
    (user_copies_sound kernel created ((Run.start.next step).next switched) rfl).2.1
      _ _ _ _ done ⟨fun offset inside path table onWay reached => ?_,
        fun offset inside translation found => ?_⟩⟩
  · apply inPlace (validMapped.table_aligned onWay.length_le reached)
    have below := table_lt_after_boot
      (step.owns (owns_after_boot created) (by simp [VmmEvent.Below])) validMapped onWay.length_le
      (lower_of_onWay (by simp only [userLimit]; omega) onWay) reached
    omega
  · rw [← hardwareWalk_page, show (0x40000000 + offset) / pageSize * pageSize =
      0x40000000 / pageSize * pageSize by simp only [pageSize]; omega,
      show hardwareWalk _ root (0x40000000 / pageSize * pageSize) =
        pageMap mapped root (0x40000000 / pageSize) from rfl, pages,
      Function.update_self] at found
    cases found
    exact inPlace (by decide) (by decide)

/-- Memory in which the second entry-sized word of the first 2 MiB page looks like
the entry of a user page at `0x2000`. -/
def forgedMemory : ByteMemory := ByteMemory.writeLE (fun _ => 0) 8 8 0x2007

/-- A task whose address space was just created stores a byte at `0x1000`, which the
identity map leaves to the kernel: the call succeeds and the byte is stored at the
physical address that the forged entry names. -/
theorem user_copy_into_large_page :
    ∃ root machine final,
      newAddressSpace (bootMachine forgedMemory) 0 = some (root, machine) ∧
      copyToUserData { machine with cr3 := root } root 0x1000 (some [0xAA]) 1 paged =
        (true, final) ∧
      final.memory 0x2000 = 0xAA ∧
      ringThree machine.memory root 0x1000 true = none ∧
      ringThreeStores machine.memory root 0x1000 [0xAA] machine.memory ≠
        some final.memory := by
  obtain ⟨root, machine, pd, created, reached, leaves, -⟩ :=
    newAddressSpace_bootMachine forgedMemory
  obtain ⟨nonzero, inherits⟩ :=
    newAddressSpace_inherits (kernelSpace_bootMachine forgedMemory).toWellFormed created
  set current : Machine := { machine with cr3 := root }
  have valid : WellFormed current root :=
    inherits.wellFormed.elsewhere (fun _ _ _ _ => ByteMemory.AgreeOn.refl _ _ _)
      inherits.wellFormed.owned
  -- the first page of memory is neither free nor part of the tables
  have rootPage : (0 : Nat) ≠ root := nonzero.symm
  have kept : ByteMemory.AgreeOn machine.memory (bootMachine forgedMemory).memory 0 4096 :=
    inherits.outside 0 rfl (bootPmm_not_available (by norm_num)) rootPage
  have forged : readEntry machine.memory 0 1 = 0x2007#64 := by
    have outside : ByteMemory.AgreeOn (bootMachine forgedMemory).memory forgedMemory 0 4096 :=
      fun address _ below => setupPageTables_of_outside forgedMemory (by omega)
    rw [readEntry_congr (kept.trans outside)]
    decide
  have directory : tableAt current.memory root [pml4Index 0x1000, pdptIndex 0x1000] =
      some pd := reached
  have leaf : readEntry current.memory pd (pdIndex 0x1000) = 0x83#64 := leaves 0
  have straight {page : Nat} (aligned : page % 4096 = 0) (low : page < 2 ^ 30) :=
    straight_of_inPlace valid rfl (inPlace_after_boot created aligned low) current rfl
      (fun _ _ _ _ => ByteMemory.AgreeOn.refl _ _ _) aligned
  have entry : userEntry current root 0x1000 paged = some 0x2007#64 := by
    have tables : ReachesTables paged current root 0x1000 := by
      intro path table onWay reached
      have below := table_lt_after_boot (owns_after_boot created) inherits.wellFormed
        onWay.length_le (lower_of_onWay (by decide) onWay) reached
      exact straight (valid.table_aligned onWay.length_le reached) (by omega)
    have second : tableAddress 0x83#64 + 8 * (ptIndex 0x1000).val = 0 + 8 := by decide
    rw [userEntry_reach valid tables, directory, Option.bind_some, leaf, second,
      straight (by decide) (by decide) 8 (by decide)]
    exact congrArg some forged
  have large : LargePage current.memory root 0x1000 :=
    ⟨pd, directory, by rw [leaf]; rfl, by rw [leaf]; rfl⟩
  have closed : ringThree machine.memory root 0x1000 true = none :=
    ringThree_of_largePage valid large true
  have chunk : copyToUserChunk current root 0x1000 [0xAA] paged =
      some { current with memory := machine.memory.storeBytes 0x2000 [0xAA] } := by
    have opened : (!present 0x2007#64 || !user 0x2007#64 || !writable 0x2007#64) = false := by
      decide
    have target : physicalAddress 0x2007#64 0x1000 = 0x2000 + 0 := by decide
    have there := @straight 0x2000 (by decide) (by decide) 0 (by decide)
    simp only [copyToUserChunk, entry, opened, Bool.false_eq_true, ↓reduceIte, target, there]
    rfl
  refine ⟨root, machine,
    { current with memory := machine.memory.storeBytes 0x2000 [0xAA] }, created, ?_, ?_,
    closed, ?_⟩
  · have bounds : ¬ (0x1000 ≥ userLimit ∨ 1 > userLimit - 0x1000) := by decide
    have whole : chunkSize (0x1000 + 0) (1 - 0) = 1 := by decide
    change copyToUserData current root 0x1000 (some [0xAA]) 1 paged = _
    simp only [copyToUserData, nonzero, one_ne_zero, bounds, ↓reduceIte]
    rw [pageLoop, if_pos Nat.one_pos, whole]
    simp only [List.drop_zero, List.take_succ_cons, List.take_zero, Nat.add_zero, chunk]
    rw [pageLoop, if_neg (by decide)]
  · change machine.memory.storeBytes 0x2000 [0xAA] 0x2000 = 0xAA
    rw [ByteMemory.storeBytes_of_inside (Nat.le_refl _) (by simp)]
    rfl
  · simp [ringThreeStores, closed]

end Charis.Memory
