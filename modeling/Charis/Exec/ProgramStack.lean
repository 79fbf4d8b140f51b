import Charis.Lib.Blocks
import Charis.Lib.Packing
import Charis.Exec.StackDemand

/-!
# The stack that a program starts with

The strings that `syscall_copy_user_vector` has accepted always fit on the two pages of a
stack, together with the words that describe them.  A program finds its arguments and its
environment as the calling convention prescribes: each pointer addresses a copy of its
string, and nothing overlaps.
-/

namespace Charis.Exec

open Charis.Lib
open Charis.Memory
open Charis.Memory.Entry

/-- Strings with a zero behind each. -/
def terminated (strings : List (List UInt8)) : List (List UInt8) :=
  strings.map fun string => string ++ [0]

/-- Bytes that strings take with their zeros. -/
def storage (strings : List (List UInt8)) : Nat := (terminated strings).flatten.length

@[simp] theorem storage_nil : storage [] = 0 := rfl

@[simp] theorem storage_cons (string : List UInt8) (strings : List (List UInt8)) :
    storage (string :: strings) = string.length + 1 + storage strings := by
  simp only [storage, terminated, List.map_cons, List.flatten_cons, List.length_append,
    List.length_singleton]

theorem storage_append (first second : List (List UInt8)) :
    storage (first ++ second) = storage first + storage second := by
  simp only [storage, terminated, List.map_append, List.flatten_append, List.length_append]

section Copies

variable {machine : Machine} {pml4 userAddress vector remaining index used used' : Nat}

/-- A string that was copied ends at its first zero and fits in what was left. -/
theorem copyUserStringLoop_string {destination data : List UInt8}
    (done : copyUserStringLoop machine pml4 userAddress remaining destination =
      (true, data)) :
    ∃ string, data = destination ++ string ++ [0] ∧ 0 ∉ string ∧
      string.length + 1 ≤ remaining := by
  induction remaining generalizing destination with
  | zero => cases done
  | succ remaining ih =>
  simp only [copyUserStringLoop] at done
  split at done
  · cases done
  split at done
  · cases done
  next pte found =>
  split at done
  · cases done
  generalize machine.memory (physicalAddress pte
    ((userAddress + destination.length) % 2 ^ 64)) = byte at done
  split at done
  · next last =>
    cases done
    refine ⟨[], ?_, List.not_mem_nil, Nat.succ_le_succ (Nat.zero_le _)⟩
    rw [last, List.append_nil]
  · next more =>
    obtain ⟨string, rfl, clean, fits⟩ := ih done
    refine ⟨byte :: string, ?_, ?_, Nat.succ_le_succ fits⟩
    · rw [List.append_assoc destination, List.singleton_append]
    · rw [List.mem_cons, not_or]
      exact ⟨fun same => more same.symm, clean⟩

theorem copyUserString_string {valid : Bool} {capacity : Nat} {data : List UInt8}
    (done : copyUserString machine pml4 userAddress valid capacity = (true, data)) :
    ∃ string, data = string ++ [0] ∧ 0 ∉ string ∧ string.length + 1 ≤ capacity := by
  rw [copyUserString] at done
  split at done
  · cases done
  · obtain ⟨string, same, rest⟩ := copyUserStringLoop_string done
    exact ⟨string, same.trans (by rw [List.nil_append]), rest⟩

/-- Strings that have been accepted, with the storage before and after them. -/
structure Accepted (strings : List (List UInt8)) (used used' : Nat) : Prop where
  few : strings.length < maxVectorEntries
  clean : ∀ string ∈ strings, 0 ∉ string
  stored : used' = used + storage strings
  fits : used ≤ storageSize → used' ≤ storageSize

theorem copyVectorLoop_spec {strings : List (List UInt8)}
    (copied : copyVectorLoop machine pml4 vector remaining index used = some (strings, used')) :
    strings.length < remaining ∧ (∀ string ∈ strings, 0 ∉ string) ∧
      used' = used + storage strings ∧ (used ≤ storageSize → used' ≤ storageSize) := by
  induction remaining generalizing index used used' strings with
  | zero => cases copied
  | succ remaining ih =>
  simp only [copyVectorLoop] at copied
  split at copied
  · cases copied
  split at copied
  · cases copied
  split at copied
  · cases copied
    exact ⟨Nat.succ_pos _, fun _ member => absurd member List.not_mem_nil, rfl, id⟩
  split at copied
  · cases copied
  next room =>
  split at copied
  · cases copied
  next bytes delivered =>
  obtain ⟨⟨rest, last⟩, more, same⟩ := Option.map_eq_some_iff.mp copied
  obtain ⟨string, rfl, clean, fits⟩ := copyUserString_string delivered
  obtain ⟨few, cleanRest, stored, within⟩ := ih more
  simp only [List.dropLast_concat, Prod.mk.injEq] at same
  obtain ⟨rfl, rfl⟩ := same
  rw [List.length_append, List.length_singleton] at stored within
  refine ⟨Nat.succ_lt_succ few, ?_, ?_, fun _ => within (by omega)⟩
  · intro other member
    rcases List.mem_cons.mp member with rfl | later
    · exact clean
    · exact cleanRest other later
  · rw [stored, storage_cons, Nat.add_assoc]

theorem accepted_of_copyUserVector {strings : List (List UInt8)}
    (copied : copyUserVector machine pml4 vector used = some (strings, used')) :
    Accepted strings used used' := by
  rw [copyUserVector] at copied
  split at copied
  · cases copied
    exact ⟨by decide, fun _ member => absurd member List.not_mem_nil, rfl, id⟩
  · obtain ⟨few, clean, stored, fits⟩ := copyVectorLoop_spec copied
    exact ⟨few, clean, stored, fits⟩

end Copies

theorem length_wordBytes (word : Nat) : (wordBytes word).length = 8 := rfl

theorem length_vectorBytes (words : List Nat) :
    (words.flatMap wordBytes).length = words.length * 8 :=
  length_blocks fun word _ => length_wordBytes word

theorem readLE_wordBytes (word : Nat) :
    ByteMemory.readLE (fun index => (wordBytes word).getD index 0) 0 8 = word % 2 ^ 64 := by
  apply ByteMemory.readLE_eq_mod
  intro index below
  rw [Nat.zero_add, wordBytes, List.getD_eq_getElem?_getD, List.getElem?_map,
    List.getElem?_range below]
  rfl

section Filling

variable {start machine : Machine} {root base low : Nat} {content : ByteMemory}
  (aligned : base % pageSize = 0)

include aligned

/-- Strings are packed below the cursor, the first of them lowest. -/
theorem Staged.pushStrings_packs
    (staged : Staged start machine root (window base 2) content)
    (strings : List (List UInt8)) (addresses : List Nat) (above : base ≤ low)
    (below : low + storage strings ≤ base + 2 * pageSize) :
    ∃ machine', Exec.pushStrings root base (strings.reverse.map some) (low + storage strings)
        addresses machine =
          (some (low, placements low (terminated strings) ++ addresses), machine') ∧
      Staged start machine' root (window base 2)
        (content.storeBytes low (terminated strings).flatten) := by
  induction strings using List.reverseRecOn generalizing machine content addresses with
  | nil =>
      refine ⟨machine, rfl, ?_⟩
      rw [show terminated [] = [] from rfl, List.flatten_nil, ByteMemory.storeBytes_nil]
      exact staged
  | append_singleton strings string ih =>
  have size : storage (strings ++ [string]) = storage strings + (string.length + 1) := by
    rw [storage_append, storage_cons, storage_nil, Nat.add_zero]
  rw [size, ← Nat.add_assoc] at below
  rw [size, ← Nat.add_assoc, List.reverse_append, List.reverse_singleton,
    List.singleton_append, List.map_cons]
  obtain ⟨state, written, after, -⟩ := @staged.store _ _ _ _ _ aligned
    (low + storage strings) (string ++ [0]) (above.trans (Nat.le_add_right _ _))
    (by rwa [List.length_append, List.length_singleton])
  have fits : ¬ string.length + 1 > low + storage strings + (string.length + 1) - base := by
    omega
  simp only [Exec.pushStrings, fits, if_false, Nat.add_sub_cancel, written]
  obtain ⟨machine', pushed, final⟩ := ih after ((low + storage strings) :: addresses)
    ((Nat.le_add_right _ _).trans below)
  have blocks : terminated (strings ++ [string]) = terminated strings ++ [string ++ [0]] := by
    rw [terminated, List.map_append]
    rfl
  refine ⟨machine', ?_, ?_⟩
  · rw [pushed, blocks, placements_append, List.append_assoc]
    rfl
  · rw [blocks, List.flatten_append, List.flatten_singleton, ByteMemory.storeBytes_append,
      ByteMemory.storeBytes_comm]
    · exact final
    · exact Nat.le_refl _

/-- The strings are packed at the top and the words are put below them. -/
theorem Staged.fillStack_packs
    (staged : Staged start machine root (window base 2) content)
    (argv envp : List (List UInt8))
    (whole : low + storage (argv ++ envp) = base + 2 * pageSize)
    (room : base + (argv.length + envp.length + 5) * 8 + 16 ≤ low) :
    ∃ argvUser envpUser rsp machine',
      argvUser ++ envpUser = placements low (terminated (argv ++ envp)) ∧
      argvUser.length = argv.length ∧ envpUser.length = envp.length ∧
      rsp % 16 = 0 ∧ base ≤ rsp ∧ rsp + (vectorWords argvUser envpUser).length * 8 ≤ low ∧
      Exec.fillStack machine root base (base + 2 * pageSize) (argv.map some) (envp.map some) =
        (some rsp, machine') ∧
      Staged start machine' root (window base 2)
        ((content.storeBytes low (terminated (argv ++ envp)).flatten).storeBytes rsp
          ((vectorWords argvUser envpUser).flatMap wordBytes)) := by
  rw [storage_append, ← Nat.add_assoc] at whole
  have above : base ≤ low := by omega
  have argvBelow : low + storage argv ≤ base + 2 * pageSize :=
    whole ▸ Nat.le_add_right _ _
  obtain ⟨machine₁, first, staged₁⟩ := @staged.pushStrings_packs _ _ _ _ (low + storage argv) _
    aligned envp [] (above.trans (Nat.le_add_right _ _)) (Nat.le_of_eq whole)
  obtain ⟨machine₂, second, staged₂⟩ :=
    staged₁.pushStrings_packs aligned argv [] above argvBelow
  rw [whole] at first
  rw [List.append_nil] at first second
  set argvUser := placements low (terminated argv) with argvEq
  set envpUser := placements (low + storage argv) (terminated envp) with envpEq
  have argc : argvUser.length = argv.length := by
    rw [argvEq, length_placements, terminated, List.length_map]
  have envc : envpUser.length = envp.length := by
    rw [envpEq, length_placements, terminated, List.length_map]
  have blocks : terminated (argv ++ envp) = terminated argv ++ terminated envp :=
    List.map_append
  have count : (vectorWords argvUser envpUser).length = argv.length + envp.length + 5 := by
    simp only [vectorWords, List.length_append, List.length_cons, List.length_nil, argc, envc]
    omega
  have size := length_vectorBytes (vectorWords argvUser envpUser)
  rw [count] at size
  set bytes := (vectorWords argvUser envpUser).flatMap wordBytes
  have place : base ≤ (low - bytes.length) / 16 * 16 := by omega
  have end_le : (low - bytes.length) / 16 * 16 + bytes.length ≤ low := by omega
  obtain ⟨machine₃, written, staged₃, -⟩ := @staged₂.store _ _ _ _ _ aligned
    ((low - bytes.length) / 16 * 16) bytes place (by omega)
  refine ⟨argvUser, envpUser, (low - bytes.length) / 16 * 16, machine₃, ?_, argc, envc,
    Nat.mul_mod_left _ _, place, by rw [count, ← size]; exact end_le, ?_, ?_⟩
  · rw [blocks, placements_append]
    rfl
  · have fits : ¬ bytes.length > low - base := by omega
    rw [Exec.fillStack, ← List.map_reverse, first]
    dsimp only
    rw [← List.map_reverse, second]
    simp only [bytes, fits, if_false, Nat.not_lt.mpr place, written]
  · rw [blocks, List.flatten_append, ByteMemory.storeBytes_append,
      @ByteMemory.storeBytes_comm content low _ _ _ (Nat.le_refl _)]
    exact staged₃

end Filling

/-! ## What the program finds -/

/-- The words of the calling convention: the number of arguments, the arguments and the
environment, each closed by a zero, and an auxiliary vector without entries. -/
def conventionWords (argvUser envpUser : List Nat) : List Nat :=
  argvUser.length :: argvUser ++ [0] ++ envpUser ++ [0] ++ [0, 0]

/-- The 64-bit word that ring 3 reads at a virtual address. -/
def userWord (machine : Machine) (root virt : Nat) : Option Nat :=
  (ringThreeLoads machine.memory root virt 8).map fun bytes =>
    ByteMemory.readLE (fun index => bytes.getD index 0) 0 8

/-- A stack on two pages that were free at the start, with copies of the strings at the given
addresses. -/
structure ProgramStack (start machine : Machine) (root base rsp : Nat)
    (argv envp : List (List UInt8)) (argvUser envpUser : List Nat) : Prop where
  fresh : ∀ page, base ≤ page * pageSize → page * pageSize < base + 2 * pageSize →
    ∃ translation, pageMap machine root page = some translation ∧
      translation.user = true ∧ translation.writable = true ∧
      start.pmm.Available translation.frame ∧ ¬ machine.pmm.Available translation.frame
  base_aligned : base % pageSize = 0
  aligned : rsp % 16 = 0
  above : base ≤ rsp
  below : rsp + 8 * (conventionWords argvUser envpUser).length ≤ base + 2 * pageSize
  argc : argvUser.length = argv.length
  envc : envpUser.length = envp.length
  words : ∀ index word, (conventionWords argvUser envpUser)[index]? = some word →
    userWord machine root (rsp + 8 * index) = some word
  strings : ∀ place string, (place, string) ∈ (argvUser ++ envpUser).zip (argv ++ envp) →
    base ≤ place ∧ place + (string.length + 1) ≤ base + 2 * pageSize ∧ 0 ∉ string ∧
      ringThreeLoads machine.memory root place (string.length + 1) = some (string ++ [0])
  apart : (Set.Ico rsp (rsp + 8 * (conventionWords argvUser envpUser).length) ::
    ((argvUser ++ envpUser).zip (argv ++ envp)).map fun (place, string) =>
      Set.Ico place (place + (string.length + 1))).Pairwise Disjoint

section Reading

variable {start machine : Machine} {root base low rsp : Nat} {content : ByteMemory}
  (aligned : base % pageSize = 0)

include aligned

/-- Ring 3 reads the content of the window. -/
theorem Staged.loads (staged : Staged start machine root (window base 2) content)
    {virt size : Nat} (above : base ≤ virt) (below : virt + size ≤ base + 2 * pageSize) :
    ringThreeLoads machine.memory root virt size = some (content.loadBytes virt size) := by
  induction size generalizing virt with
  | zero => rfl
  | succ size ih =>
  have read := staged.toLoaded.ringThree_read
    (div_mem_window aligned above (by omega : virt < base + 2 * pageSize))
  obtain ⟨address, found, same⟩ := Option.map_eq_some_iff.mp read
  simp only [ringThreeLoads, found, Option.bind_some]
  rw [ih (above.trans (Nat.le_succ virt)) (by omega), Option.map_some, same]
  rfl

omit aligned in
theorem conventionWords_lt {argvUser envpUser : List Nat} (number : argvUser.length < 2 ^ 64)
    (address : ∀ pointer ∈ argvUser ++ envpUser, pointer < 2 ^ 64) {word : Nat}
    (member : word ∈ conventionWords argvUser envpUser) : word < 2 ^ 64 := by
  simp only [conventionWords, List.mem_append, List.mem_cons, List.not_mem_nil,
    or_false, or_assoc] at member
  rcases member with rfl | first | rfl | second | rfl | rfl | rfl
  · exact number
  · exact address word (List.mem_append_left _ first)
  · exact Nat.two_pow_pos 64
  · exact address word (List.mem_append_right _ second)
  · exact Nat.two_pow_pos 64
  · exact Nat.two_pow_pos 64
  · exact Nat.two_pow_pos 64

/-- Packed strings and a vector of words below them make a program stack. -/
theorem Staged.programStack {argv envp : List (List UInt8)} {argvUser envpUser : List Nat}
    (staged : Staged start machine root (window base 2)
      ((content.storeBytes low (terminated (argv ++ envp)).flatten).storeBytes rsp
        ((conventionWords argvUser envpUser).flatMap wordBytes)))
    (limit : base + 2 * pageSize ≤ userLimit)
    (whole : low + storage (argv ++ envp) = base + 2 * pageSize)
    (places : argvUser ++ envpUser = placements low (terminated (argv ++ envp)))
    (argc : argvUser.length = argv.length) (envc : envpUser.length = envp.length)
    (clean : ∀ string ∈ argv ++ envp, 0 ∉ string) (even : rsp % 16 = 0) (above : base ≤ rsp)
    (below : rsp + (conventionWords argvUser envpUser).length * 8 ≤ low) :
    ProgramStack start machine root base rsp argv envp argvUser envpUser := by
  have size := length_vectorBytes (conventionWords argvUser envpUser)
  have blocks (place : Nat) (string : List UInt8)
      (member : (place, string) ∈ (argvUser ++ envpUser).zip (argv ++ envp)) :
      (place, string ++ [0]) ∈
        (placements low (terminated (argv ++ envp))).zip (terminated (argv ++ envp)) := by
    rw [← places, terminated, List.zip_map_right]
    exact List.mem_map.mpr ⟨_, member, rfl⟩
  have inside (place : Nat) (string : List UInt8)
      (member : (place, string) ∈ (argvUser ++ envpUser).zip (argv ++ envp)) :
      low ≤ place ∧ place + (string.length + 1) ≤ base + 2 * pageSize := by
    have bounds := placed_inside (blocks place string member)
    rw [List.length_append, List.length_singleton] at bounds
    exact ⟨bounds.1, bounds.2.trans (Nat.le_of_eq whole)⟩
  have fits (word : Nat) (member : word ∈ conventionWords argvUser envpUser) :
      word < 2 ^ 64 := by
    have address (pointer : Nat) (listed : pointer ∈ argvUser ++ envpUser) :
        pointer < 2 ^ 64 := by
      rw [places] at listed
      have near := (placement_le listed).trans (Nat.le_of_eq whole)
      simp only [userLimit] at limit
      omega
    refine conventionWords_lt ?_ address member
    simp only [conventionWords, List.length_append, List.length_cons] at below
    simp only [userLimit] at limit
    omega
  exact {
    fresh := by
      intro page first last
      obtain ⟨translation, found, access, -, foreign, -⟩ := staged.mapped page ⟨first, last⟩
      obtain ⟨phys, available, entered⟩ := staged.entered page ⟨first, last⟩
      have frame := frame_requested available.aligned stackFlags
      rw [entered] at found
      cases found
      rw [frame] at foreign
      exact ⟨_, entered, rfl, rfl, by rwa [frame], by rw [frame]; exact foreign.1⟩
    base_aligned := aligned
    aligned := even
    above := above
    below := by omega
    argc := argc
    envc := envc
    words := by
      intro index word there
      have inList : index < (conventionWords argvUser envpUser).length :=
        (List.getElem?_eq_some_iff.mp there).1
      have part := part_of_blocks (fun word _ => length_wordBytes word) there
        (Nat.le_refl (0 + 8))
      rw [← ByteMemory.loadBytes_storeBytes (content.storeBytes low
        (terminated (argv ++ envp)).flatten) rsp
        ((conventionWords argvUser envpUser).flatMap wordBytes), size,
        ByteMemory.part_loadBytes (by omega)] at part
      rw [userWord, staged.loads aligned (by omega) (by omega), Option.map_some,
        show rsp + 8 * index = rsp + (index * 8 + 0) by omega, part]
      rw [show ((wordBytes word).drop 0).take (0 + 8) = wordBytes word from rfl,
        readLE_wordBytes, Nat.mod_eq_of_lt (fits word (List.mem_of_getElem? there))]
    strings := by
      intro place string member
      obtain ⟨first, last⟩ := inside place string member
      have stored : ByteMemory.loadBytes
          ((content.storeBytes low (terminated (argv ++ envp)).flatten).storeBytes rsp
            ((conventionWords argvUser envpUser).flatMap wordBytes)) low
            (terminated (argv ++ envp)).flatten.length =
          (terminated (argv ++ envp)).flatten := by
        rw [ByteMemory.loadBytes_congr (ByteMemory.agreeOn_storeBytes (.inr (by omega))),
          ByteMemory.loadBytes_storeBytes]
      have loaded := loadBytes_placed stored (blocks place string member)
      rw [List.length_append, List.length_singleton] at loaded
      refine ⟨by omega, last, clean string (List.of_mem_zip member).2, ?_⟩
      rw [staged.loads aligned (by omega) last, loaded]
    apart := by
      rw [List.pairwise_cons]
      constructor
      · intro range member
        obtain ⟨⟨place, string⟩, listed, rfl⟩ := List.mem_map.mp member
        have bounds := inside place string listed
        rw [Set.disjoint_left]
        intro virt ofWords ofString
        rw [Set.mem_Ico] at ofWords ofString
        omega
      · have ordered := placed_apart low (terminated (argv ++ envp))
        rw [← places, terminated, List.zip_map_right, List.pairwise_map] at ordered
        rw [List.pairwise_map]
        apply ordered.imp
        rintro ⟨place, string⟩ ⟨place', string'⟩ before
        simp only [Prod.map_apply, id_eq, List.length_append, List.length_singleton] at before
        rw [Set.disjoint_left]
        intro virt early late
        rw [Set.mem_Ico] at early late
        omega }

end Reading

/-- The pages that `elf_setup_stack` takes from the allocator. -/
def stackDemand (machine : Machine) (root : Nat) : Nat :=
  match findStack machine root 4096 stackLimit with
  | none => 0
  | some stackTop => windowDemand machine.memory root (stackTop - 2 * pageSize)

theorem strings_ofStrings (strings : List (List UInt8)) :
    (StringVector.ofStrings strings).strings = strings.map some := by
  apply List.ext_getElem?
  intro index
  simp only [StringVector.strings, StringVector.ofStrings, Int.toNat_natCast, Option.bind_some,
    List.getElem?_map]
  by_cases below : index < strings.length
  · rw [List.getElem?_range below, Option.map_some, List.getElem?_eq_getElem below,
      Option.map_some]
  · rw [List.getElem?_eq_none (by rw [List.length_range]; omega),
      List.getElem?_eq_none (by omega)]
    rfl

theorem refused_ofStrings {strings : List (List UInt8)} {used used' : Nat}
    (accepted : Accepted strings used used') :
    (StringVector.ofStrings strings).refused = false := by
  have few := accepted.few
  have given : (StringVector.ofStrings strings).pointers.isNone = false := rfl
  rw [StringVector.refused, given, Bool.and_false, Bool.or_false, Bool.or_eq_false_iff]
  constructor
  · apply decide_eq_false
    exact Int.not_lt.mpr (Int.natCast_nonneg strings.length)
  · apply decide_eq_false
    exact Int.not_lt.mpr (Int.ofNat_le.mpr few.le)

/-- When two pages are free below the usual stack top and the allocator has the pages for
them, a program gets its stack, whatever vectors the system call has accepted.  The identity
pages of what the call touches are in place, not where a stack may go, and stay there. -/
theorem program_stack_built {boot fresh caller machine : Machine}
    {source root pml4 vector vector' used used' userRsp : Nat} {events : List VmmEvent}
    {mm : ProcessMm} {argv envp : List (List UInt8)}
    (kernel : KernelSpace boot (sourceRoot boot source))
    (created : newAddressSpace boot source = some (root, fresh))
    (run : Run (VmmStep root) fresh events machine) (space : mm.pml4 = root)
    (argvCopied : copyUserVector caller pml4 vector 0 = some (argv, used))
    (envpCopied : copyUserVector caller pml4 vector' used = some (envp, used'))
    (free : ∃ attempt < 4096, WindowFree machine root (stackLimit - attempt * pageSize))
    (pages : machine.pmm.Plenty (stackDemand machine root))
    (intact : ∀ page, Touched machine (elfSetupStack ⟨machine, some mm, some userRsp⟩
        (.ofStrings argv) (.ofStrings envp)).2.machine root [] page →
      InPlace machine.memory root page ∧ ¬ Searched page) :
    ∃ base rsp argvUser envpUser machine',
      elfSetupStack ⟨machine, some mm, some userRsp⟩ (.ofStrings argv) (.ofStrings envp) =
        (0, ⟨machine', some { mm with stackTop := rsp }, some rsp⟩) ∧
      ProgramStack machine machine' root base rsp argv envp argvUser envpUser ∧
      ∀ page, Touched machine machine' root [] page → InPlace machine'.memory root page := by
  subst space
  obtain ⟨nonzero, valid⟩ := wellFormed_of_run kernel created run
  have argvAccepted := accepted_of_copyUserVector argvCopied
  have envpAccepted := accepted_of_copyUserVector envpCopied
  have capacity := envpAccepted.fits (argvAccepted.fits (Nat.zero_le _))
  rw [envpAccepted.stored, argvAccepted.stored, Nat.zero_add, ← storage_append] at capacity
  have argvFew := argvAccepted.few
  have envpFew := envpAccepted.few
  obtain ⟨attempt, below, windowFree⟩ := free
  obtain ⟨stackTop, found⟩ := exists_findStack below (by
    simp only [pageSize, stackLimit]
    omega) windowFree
  rw [stackDemand, found] at pages
  obtain ⟨tried, triedBelow, same, room, -⟩ := findStack_eq_some found
  obtain ⟨base, rfl⟩ := Nat.exists_eq_add_of_le room
  rw [Nat.add_comm (2 * pageSize) base] at found pages same
  dsimp only at pages
  rw [Nat.add_sub_cancel] at pages
  have place : base + tried * 4096 = 0x00007FFFFFFFC000 := by
    simp only [pageSize, stackLimit] at same
    omega
  have aligned : base % pageSize = 0 := by
    simp only [pageSize]
    omega
  have limit : base + 2 * pageSize ≤ userLimit := by
    simp only [pageSize, userLimit]
    omega
  have upper : pml4Index (base + pageSize) = pml4Index base ∧
      pdptIndex (base + pageSize) = pdptIndex base := by
    simp only [pml4Index, pdptIndex, Fin.ext_iff, Fin.val_ofNat, pageSize]
    omega
  obtain ⟨machine₁, mapped⟩ := mapStackPages_succeeds valid nonzero aligned limit upper pages
  obtain ⟨entered, -, -, whole, staged, -, -⟩ :=
    (Staged.refl valid fun _ => 0).mapStackPages aligned limit mapped
  cases whole rfl
  rw [Set.union_empty] at staged
  obtain ⟨low, packed⟩ : ∃ low, low + storage (argv ++ envp) = base + 2 * pageSize :=
    ⟨base + 2 * pageSize - storage (argv ++ envp), by
      apply Nat.sub_add_cancel
      simp only [storageSize, pageSize] at *
      omega⟩
  have fits : base + (argv.length + envp.length + 5) * 8 + 16 ≤ low := by
    simp only [storageSize, maxVectorEntries, pageSize] at *
    omega
  obtain ⟨argvUser, envpUser, rsp, machine₂, places, argc, envc, even, above, end_le, filled,
    final⟩ := staged.fillStack_packs aligned argv envp packed fits
  have clean : ∀ string ∈ argv ++ envp, 0 ∉ string := by
    intro string member
    rcases List.mem_append.mp member with first | second
    · exact argvAccepted.clean string first
    · exact envpAccepted.clean string second
  have accepted : (decide (mm.pml4 = 0) || (StringVector.ofStrings argv).refused ||
      (StringVector.ofStrings envp).refused) = false := by
    rw [refused_ofStrings argvAccepted, refused_ofStrings envpAccepted, Bool.or_false,
      Bool.or_false, decide_eq_false nonzero]
  have called : elfSetupStack ⟨machine, some mm, some userRsp⟩ (.ofStrings argv)
      (.ofStrings envp) = (0, ⟨machine₂, some { mm with stackTop := rsp }, some rsp⟩) := by
    simp only [elfSetupStack, accepted, Bool.false_eq_true, if_false, buildStack, found,
      Nat.add_sub_cancel, mapped, strings_ofStrings, filled]
  rw [called] at intact
  refine ⟨base, rsp, argvUser, envpUser, machine₂, called,
    final.programStack aligned limit packed places argc envc clean even above end_le,
    fun page touched => ?_⟩
  obtain ⟨inPlace, outside⟩ := intact page touched
  refine inPlace.of_pageMap (final.kept _ fun member => outside ?_)
  simp only [Searched, window, Set.mem_ofPred_eq, stackLimit, pageSize] at *
  omega

/-- Memory of a caller: four tables at `0x1000`, and at `0x5000` a user page that holds a
vector of one pointer and the string `A` that it points at. -/
def argumentMemory : ByteMemory :=
  ByteMemory.writeLE (ByteMemory.writeLE (ByteMemory.writeLE (ByteMemory.writeLE
    (ByteMemory.writeLE (ByteMemory.writeLE (fun _ => 0) 0x1000 8 0x2007) 0x2000 8 0x3007)
    0x3000 8 0x4007) 0x4008 8 0x5007) 0x5000 8 0x1010) 0x5010 1 0x41

def argumentMachine : Machine := ⟨argumentMemory, bootPmm, 0x1000⟩

/-- A part of one page is copied in one round. -/
theorem copyUserData_page {machine : Machine} {pml4 address size : Nat} {pte : Entry}
    (nonzero : pml4 ≠ 0) (some : 0 < size) (low : address + size ≤ userLimit)
    (inside : address % pageSize + size ≤ pageSize)
    (found : userEntry machine pml4 address = Option.some pte)
    (opened : (!present pte || !user pte) = false) :
    copyUserData machine pml4 address true size =
      (true, machine.memory.loadBytes (physicalAddress pte address) size) := by
  have bounds : (!true || decide (address ≥ userLimit) ||
      decide (size > userLimit - address)) = false := by
    rw [Bool.not_true, Bool.false_or, Bool.or_eq_false_iff]
    exact ⟨decide_eq_false (by omega), decide_eq_false (by omega)⟩
  have chunk : chunkSize address size = size := by
    simp only [chunkSize]
    omega
  have round : copyUserChunk machine pml4 address size =
      Option.some (machine.memory.loadBytes (physicalAddress pte address) size) := by
    simp only [copyUserChunk, found, opened, Bool.false_eq_true, if_false]
  rw [copyUserData, if_neg nonzero, if_neg some.ne', bounds, if_neg Bool.false_ne_true,
    pageLoop, if_pos some]
  simp only [Nat.add_zero, Nat.sub_zero, chunk, round, Option.map_some, List.nil_append,
    Nat.zero_add]
  rw [pageLoop, if_neg (Nat.lt_irrefl size)]

theorem argument_copied :
    copyUserVector argumentMachine 0x1000 0x1000 0 = some ([[0x41]], 2) := by
  have entry (address : Nat) (inside : address ∈ [0x1000, 0x1008, 0x1010, 0x1011]) :
      userEntry argumentMachine 0x1000 address = some 0x5007#64 := by
    fin_cases inside <;> decide +kernel
  have pointer (address : Nat) (inside : address ∈ [0x1000, 0x1008]) :
      copyUserData argumentMachine 0x1000 address true 8 =
        (true, argumentMemory.loadBytes (physicalAddress 0x5007#64 address) 8) := by
    fin_cases inside
    · exact copyUserData_page (by decide) (by decide) (by decide) (by decide)
        (entry 0x1000 (by decide)) rfl
    · exact copyUserData_page (by decide) (by decide) (by decide) (by decide)
        (entry 0x1008 (by decide)) rfl
  have string : copyUserString argumentMachine 0x1000 0x1010 true 4096 = (true, [0x41, 0]) := by
    have limits : ¬ ((0x1000 : Nat) = 0 ∨ (0x1010 : Nat) = 0 ∨ true = false ∨ 4096 = 0 ∨
        0x1010 ≥ userLimit) := by decide
    have first : ¬ (0x1010 % 2 ^ 64 < 0x1010 ∨ 0x1010 % 2 ^ 64 ≥ userLimit) := by decide
    have second : ¬ (0x1011 % 2 ^ 64 < 0x1010 ∨ 0x1011 % 2 ^ 64 ≥ userLimit) := by decide
    have letter : argumentMachine.memory (physicalAddress 0x5007#64 (0x1010 % 2 ^ 64)) = 0x41 := by
      decide +kernel
    have last : argumentMachine.memory (physicalAddress 0x5007#64 (0x1011 % 2 ^ 64)) = 0 := by
      decide +kernel
    have opened : (!present 0x5007#64 || !user 0x5007#64) = false := by decide
    have loop (remaining : Nat) : copyUserStringLoop argumentMachine 0x1000 0x1010 (remaining + 2)
        [] = (true, [0x41, 0]) := by
      simp only [copyUserStringLoop, List.length_nil, List.length_append, List.length_singleton,
        Nat.add_zero, Nat.reduceAdd, first, second, if_false, opened, Bool.false_eq_true,
        entry (0x1010 % 2 ^ 64) (by decide), entry (0x1011 % 2 ^ 64) (by decide), letter, last]
      rfl
    rw [copyUserString, if_neg limits]
    exact loop 4094
  have word : ByteMemory.readLE (fun index => (argumentMemory.loadBytes
      (physicalAddress 0x5007#64 0x1000) 8).getD index 0) 0 8 = 0x1010 := by
    decide +kernel
  have zero : ByteMemory.readLE (fun index => (argumentMemory.loadBytes
      (physicalAddress 0x5007#64 0x1008) 8).getD index 0) 0 8 = 0 := by
    decide +kernel
  have here : (0x1000 + 0 * 8) % 2 ^ 64 = 0x1000 := by decide
  have next : (0x1000 + (0 + 1) * 8) % 2 ^ 64 = 0x1008 := by decide
  have loop (remaining : Nat) :
      copyVectorLoop argumentMachine 0x1000 0x1000 (remaining + 2) 0 0 = some ([[0x41]], 2) := by
    have room : ¬ 0 ≥ storageSize := by decide
    have above : ¬ 0x1000 < 0x1000 := by decide
    have above' : ¬ 0x1008 < 0x1000 := by decide
    have some : ¬ 0x1010 = 0 := by decide
    simp only [copyVectorLoop, here, next, above, above', if_false, pointer 0x1000 (by decide),
      pointer 0x1008 (by decide), word, zero, some, room, Nat.sub_zero, string]
    rfl
  rw [copyUserVector, if_neg (by decide)]
  exact loop 14

/-- A program gets its stack in a new address space: one argument and no environment. -/
theorem program_stack_built_argument :
    ∃ root fresh base rsp argvUser envpUser machine',
      newAddressSpace (bootMachine fun _ => 0) 0 = some (root, fresh) ∧
      elfSetupStack ⟨fresh, some ⟨root, 0, 0, 0⟩, some 0⟩ (.ofStrings [[0x41]]) (.ofStrings []) =
        (0, ⟨machine', some ⟨root, 0, 0, rsp⟩, some rsp⟩) ∧
      ProgramStack fresh machine' root base rsp [[0x41]] [] argvUser envpUser := by
  obtain ⟨root, fresh, -, created, -, -, left⟩ := newAddressSpace_bootMachine fun _ => 0
  have kernel := kernelSpace_bootMachine fun _ => 0
  obtain ⟨nonzero, inherits⟩ := newAddressSpace_inherits kernel.toWellFormed created
  have free : WindowFree fresh root (stackLimit - 0 * pageSize) :=
    ⟨not_occupied_of_unmapped inherits.wellFormed
        (unmapped_of_searched inherits ⟨by decide, by decide⟩),
      not_occupied_of_unmapped inherits.wellFormed
        (unmapped_of_searched inherits ⟨by decide, by decide⟩)⟩
  have pages : fresh.pmm.Plenty (stackDemand fresh root) := by
    rw [left]
    apply plenty_newAddressSpace.mono
    rw [stackDemand]
    split
    · exact Nat.zero_le _
    · exact (windowDemand_le _ _ _).trans (by decide)
  obtain ⟨base, rsp, argvUser, envpUser, machine', built, stack, -⟩ :=
    @program_stack_built _ fresh argumentMachine fresh 0 root 0x1000 0x1000 0 2 2 0 []
      ⟨root, 0, 0, 0⟩ [[0x41]] [] kernel created .start rfl argument_copied rfl
      ⟨0, by decide, free⟩ pages fun page touched => by
        obtain ⟨inPlace, low⟩ := touched_after_boot created touched
        refine ⟨inPlace, fun searched => ?_⟩
        have above := searched.1
        simp only [stackLimit, pageSize] at above
        omega
  exact ⟨root, fresh, base, rsp, argvUser, envpUser, machine', created, built, stack⟩

end Charis.Exec
