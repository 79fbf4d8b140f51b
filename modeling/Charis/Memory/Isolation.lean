import Charis.Memory.AddressSpaceRefinement

/-!
# Isolation of address spaces

The tables that a new address space is edited through below the upper half are pages that
the allocator had when the space was created.  Every such page has a level, and links from a
page of one level lead to a page of the next, so that no edit reaches a table that was in use
before.
-/

namespace Charis.Memory

open Charis.Lib
open Charis.Lib.RadixTree
open Entry

/-- The pages of an address space, by level.  They are pages that the allocator had in the
beginning, or no memory at all; the other pages are as they were.  Entries lead from one
level to the next, apart from those that are still to be filled in. -/
structure Owning (base machine : Machine) (level : Nat → Option Nat)
    (pending : Nat → Fin 512 → Prop) : Prop where
  aligned : ∀ page depth, level page = some depth → page % 4096 = 0
  taken : ∀ page depth, level page = some depth → ¬ machine.pmm.Available page
  fresh : ∀ page depth, level page = some depth →
    base.pmm.Available page ∨ 2 ^ 52 ≤ page ∧ depth = 3
  shrinks : ∀ page, machine.pmm.Available page → base.pmm.Available page
  outside : ∀ page, page % 4096 = 0 → level page = none →
    ByteMemory.AgreeOn machine.memory base.memory page (page + 4096)
  lower : ∀ page depth index, level page = some depth → depth ≤ 2 →
    (depth = 0 → index.val < 256) → ¬ pending page index →
    present (readEntry machine.memory page index) = true →
    (depth = 2 → huge (readEntry machine.memory page index) = false) →
    level (tableAddress (readEntry machine.memory page index)) = some (depth + 1)

/-- Pages keep their level. -/
def Extends (before after : Nat → Option Nat) : Prop :=
  ∀ page depth, before page = some depth → after page = some depth

theorem Extends.refl (level : Nat → Option Nat) : Extends level level := fun _ _ => id

theorem Extends.trans {first second third : Nat → Option Nat} (early : Extends first second)
    (late : Extends second third) : Extends first third :=
  fun page depth here => late page depth (early page depth here)

theorem Extends.update {level : Nat → Option Nat} {page depth : Nat}
    (new : level page = none ∨ level page = some depth) :
    Extends level (Function.update level page (some depth)) := by
  intro other depth' here
  by_cases same : other = page
  · subst same
    rw [Function.update_self]
    rcases new with none | known
    · rw [none] at here
      cases here
    · rw [known] at here
      exact here
  · rwa [Function.update_of_ne same]

namespace Owning

variable {base machine : Machine} {level : Nat → Option Nat} {pending : Nat → Fin 512 → Prop}
  {page depth : Nat} {index : Fin 512}

theorem level_eq_none (owning : Owning base machine level pending)
    (free : machine.pmm.Available page) : level page = none := by
  cases here : level page with
  | none => rfl
  | some depth => exact absurd free (owning.taken page depth here)

theorem level_of_used (owning : Owning base machine level pending)
    (used : ¬ base.pmm.Available page) (small : page < 2 ^ 52) : level page = none := by
  cases here : level page with
  | none => rfl
  | some depth =>
      rcases owning.fresh page depth here with free | ⟨large, _⟩
      · exact absurd free used
      · omega

/-- Tables that were in use before are read as they were. -/
theorem readEntry_used (owning : Owning base machine level pending) (page_aligned : page % 4096 = 0)
    (used : ¬ base.pmm.Available page) (small : page < 2 ^ 52) :
    readEntry machine.memory page index = readEntry base.memory page index :=
  readEntry_congr (owning.outside page page_aligned (owning.level_of_used used small))

/-- Less may be pending, if what no longer is does not matter or is in order. -/
theorem settle (owning : Owning base machine level pending) {pending' : Nat → Fin 512 → Prop}
    (settled : ∀ page depth index, level page = some depth → depth ≤ 2 → pending page index →
      ¬ pending' page index → present (readEntry machine.memory page index) = true →
      (depth = 2 → huge (readEntry machine.memory page index) = false) →
      level (tableAddress (readEntry machine.memory page index)) = some (depth + 1)) :
    Owning base machine level pending' := by
  refine ⟨owning.aligned, owning.taken, owning.fresh, owning.shrinks, owning.outside, ?_⟩
  intro page depth index here upper low done used small
  by_cases waiting : pending page index
  · exact settled page depth index here upper waiting done used small
  · exact owning.lower page depth index here upper low waiting used small

/-- An entry of an own page is written. -/
theorem write (owning : Owning base machine level pending) {entry : Entry}
    (here : level page = some depth)
    (leads : depth ≤ 2 → (depth = 0 → index.val < 256) → ¬ pending page index →
      present entry = true → (depth = 2 → huge entry = false) →
      level (tableAddress entry) = some (depth + 1)) :
    Owning base (machine.setEntry page index entry) level pending := by
  have page_aligned := owning.aligned page depth here
  refine ⟨owning.aligned, owning.taken, owning.fresh, owning.shrinks, ?_, ?_⟩
  · intro other other_aligned none
    have different : other ≠ page := by
      intro same
      rw [same, here] at none
      cases none
    exact (agreeOn_writeEntry (by omega)).trans (owning.outside other other_aligned none)
  · intro other depth' slot there upper low done
    by_cases same : (other, slot) = (page, index)
    · cases same
      rw [here, Option.some.injEq] at there
      subst there
      rw [Machine.setEntry, readEntry_writeEntry_self]
      exact leads upper low done
    · rw [Machine.setEntry, readEntry_writeEntry_of_ne page_aligned
        (owning.aligned other depth' there) same]
      exact owning.lower other depth' slot there upper low done

/-- A page of the allocator is taken over at a level. -/
theorem adopt (owning : Owning base machine level pending) (depth : Nat) (memory : ByteMemory)
    (pending' : Nat → Fin 512 → Prop) {pmm : Pmm} (takes : Pmm.Takes machine.pmm pmm page)
    (kept : ∀ other, other % 4096 = 0 → other ≠ page →
      ByteMemory.AgreeOn memory machine.memory other (other + 4096))
    (others : ∀ other index, other ≠ page → (pending' other index ↔ pending other index))
    (content : ∀ index, depth ≤ 2 → ¬ pending' page index →
      present (readEntry memory page index) = false) :
    Owning base { machine with memory, pmm } (Function.update level page (some depth))
      pending' := by
  have new := owning.level_eq_none takes.1
  have extended : Extends level (Function.update level page (some depth)) :=
    Extends.update (.inl new)
  constructor
  · intro other depth' here
    by_cases same : other = page
    · rw [same]
      exact takes.1.aligned
    · rw [Function.update_of_ne same] at here
      exact owning.aligned other depth' here
  · intro other depth' here free
    obtain ⟨free, different⟩ := (takes.2 other).mp free
    rw [Function.update_of_ne different] at here
    exact owning.taken other depth' here free
  · intro other depth' here
    by_cases same : other = page
    · rw [same]
      exact .inl (owning.shrinks page takes.1)
    · rw [Function.update_of_ne same] at here
      exact owning.fresh other depth' here
  · intro other free
    exact owning.shrinks other ((takes.2 other).mp free).1
  · intro other other_aligned none
    have different : other ≠ page := by
      intro same
      rw [same, Function.update_self] at none
      cases none
    rw [Function.update_of_ne different] at none
    exact (kept other other_aligned different).trans (owning.outside other other_aligned none)
  intro other depth' slot here upper low done used small
  by_cases same : other = page
  · subst same
    rw [Function.update_self, Option.some.injEq] at here
    subst here
    rw [content slot upper done] at used
    cases used
  · rw [Function.update_of_ne same] at here
    have agree := kept other (owning.aligned other depth' here) same
    rw [readEntry_congr agree] at used small ⊢
    rw [others other slot same] at done
    exact extended _ _ (owning.lower other depth' slot here upper low done used small)

/-- An address that is no memory is given a level at the bottom. -/
theorem adoptHigh (owning : Owning base machine level pending) (page_aligned : page % 4096 = 0)
    (large : 2 ^ 52 ≤ page) :
    Extends level (Function.update level page (some 3)) ∧
      Owning base machine (Function.update level page (some 3)) pending := by
  have extended : Extends level (Function.update level page (some 3)) := by
    apply Extends.update
    cases here : level page with
    | none => exact .inl rfl
    | some depth =>
        rcases owning.fresh page depth here with free | ⟨_, rfl⟩
        · have := free.lt
          omega
        · exact .inr rfl
  refine ⟨extended, ?_⟩
  constructor
  · intro other depth here
    by_cases same : other = page
    · rw [same]
      exact page_aligned
    · rw [Function.update_of_ne same] at here
      exact owning.aligned other depth here
  · intro other depth here free
    by_cases same : other = page
    · have := free.lt
      omega
    · rw [Function.update_of_ne same] at here
      exact owning.taken other depth here free
  · intro other depth here
    by_cases same : other = page
    · rw [same, Function.update_self, Option.some.injEq] at here
      rw [same]
      exact .inr ⟨large, here.symm⟩
    · rw [Function.update_of_ne same] at here
      exact owning.fresh other depth here
  · exact owning.shrinks
  · intro other other_aligned none
    have different : other ≠ page := by
      intro same
      rw [same, Function.update_self] at none
      cases none
    rw [Function.update_of_ne different] at none
    exact owning.outside other other_aligned none
  · intro other depth slot here upper low done used small
    have different : other ≠ page := by
      intro same
      rw [same, Function.update_self, Option.some.injEq] at here
      omega
    rw [Function.update_of_ne different] at here
    exact extended _ _ (owning.lower other depth slot here upper low done used small)

end Owning

/-- An address space whose tables below the upper half are all its own. -/
structure OwnSpace (base machine : Machine) (root : Nat) (level : Nat → Option Nat) : Prop
    extends Owning base machine level fun _ _ => False where
  atRoot : level root = some 0

section Mapping

variable {base machine machine' : Machine} {root parent depth : Nat} {level : Nat → Option Nat}
  {index : Fin 512}

theorem allocPage_zero {pmm : Pmm} (failed : pmm.allocPage.1 = 0) : pmm.allocPage.2 = pmm := by
  rcases pmm.allocPage_cases with same | taken
  · rw [same]
  · exact absurd failed taken.1.pos.ne'

theorem allocPage_takes {pmm : Pmm} (succeeded : pmm.allocPage.1 ≠ 0) :
    Pmm.Takes pmm pmm.allocPage.2 pmm.allocPage.1 := by
  rcases pmm.allocPage_cases with failed | takes
  · rw [failed] at succeeded
    exact absurd rfl succeeded
  · exact takes

theorem tableAddress_tableEntry {phys : Nat} (flags : Entry) (aligned : phys % 4096 = 0)
    (small : phys < 2 ^ 52) : tableAddress (tableEntry phys flags) = phys := by
  rw [tableAddress_eq_frame (highClear_tableEntry aligned small), frame_tableEntry aligned small]

theorem getOrCreateTable_owns {ok : Bool} {flags : Entry}
    (own : OwnSpace base machine root level) (here : level parent = some depth)
    (called : getOrCreateTable machine parent index flags = (ok, machine')) :
    ∃ level', Extends level level' ∧ OwnSpace base machine' root level' ∧
      (ok = true → present (readEntry machine'.memory parent index) = true) := by
  unfold getOrCreateTable at called
  split at called
  · next used =>
    cases called
    exact ⟨level, .refl level, own, fun _ => used⟩
  dsimp only at called
  split at called
  · next failed =>
    cases called
    rw [allocPage_zero failed]
    exact ⟨level, .refl level, own, nofun⟩
  next succeeded =>
  cases called
  have takes := allocPage_takes succeeded
  generalize machine.pmm.allocPage.1 = phys at takes
  generalize machine.pmm.allocPage.2 = pmm at takes
  have aligned := takes.1.aligned
  have small : phys < 2 ^ 52 := by
    have := takes.1.lt
    omega
  have extended : Extends level (Function.update level phys (some (depth + 1))) :=
    Extends.update (.inl (own.level_eq_none takes.1))
  have adopted := own.adopt (depth + 1) (machine.memory.fill phys pageSize 0) (fun _ _ => False)
    takes
    (fun other other_aligned different => ByteMemory.agreeOn_fill (by
      simp only [pageSize]
      omega))
    (fun _ _ _ => Iff.rfl) (fun slot _ _ => by
      rw [show readEntry (machine.memory.fill phys pageSize 0) phys slot = 0#64 from
        readEntry_fill_zero]
      rfl)
  refine ⟨_, extended, ⟨adopted.write (extended _ _ here) ?_, extended _ _ own.atRoot⟩, ?_⟩
  · intro _ _ _ _ _
    rw [tableAddress_tableEntry flags aligned small, Function.update_self]
  · intro _
    rw [readEntry_writeEntry_self]
    exact present_tableEntry aligned small

/-- The link to the table of a split page is its address, or no memory at all if the page
could not be executed. -/
theorem tableAddress_splitLink {phys : Nat} (pde : Entry) (aligned : phys % 4096 = 0)
    (small : phys < 2 ^ 52) :
    tableAddress (splitLink phys pde) = phys ∨ 2 ^ 52 ≤ tableAddress (splitLink phys pde) := by
  cases execute : nx pde with
  | false =>
      left
      have clear : HighClear (pde &&& (flagMask &&& ~~~0x80#64)) := by
        unfold HighClear
        apply BitVec.eq_of_getLsbD_eq
        intro bit below
        have masks : ∀ bit < 64, bit ≠ 63 → ((flagMask &&& ~~~0x80#64).getLsbD bit &&
            (0xFFF0000000000000#64).getLsbD bit) = false := by decide
        by_cases top : bit = 63
        · subst top
          have bit : pde.getLsbD 63 = false := execute
          rw [BitVec.getLsbD_and, BitVec.getLsbD_and, bit, Bool.false_and, Bool.false_and]
          rfl
        · rw [BitVec.getLsbD_and, BitVec.getLsbD_and, Bool.and_assoc, masks bit below top]
          simp
      have high : HighClear (splitLink phys pde) := by
        rw [splitLink_eq]
        exact highClear_or aligned small clear
      rw [tableAddress_eq_frame high, frame_splitLink aligned small]
  | true =>
  right
  have bit : (splitLink phys pde &&& pageMask).getLsbD 63 = true := by
    rw [BitVec.getLsbD_and, getLsbD_splitLink aligned small (by decide) (by decide)]
    rw [show pde.getLsbD 63 = true from execute]
    decide
  have large : 2 ^ 63 ≤ (splitLink phys pde &&& pageMask).toNat := by
    rw [BitVec.getLsbD] at bit
    exact Nat.ge_two_pow_of_testBit bit
  rw [tableAddress]
  omega

theorem splitHugePage_owns {pd : Nat} {pde : Entry} {link : Option Entry}
    (own : OwnSpace base machine root level) (here : level pd = some 2)
    (called : splitHugePage machine pd index pde = (link, machine')) :
    ∃ level', Extends level level' ∧ OwnSpace base machine' root level' ∧
      ∀ entry, link = some entry →
        readEntry machine'.memory pd index = entry ∧ level' (tableAddress entry) = some 3 := by
  unfold splitHugePage at called
  dsimp only at called
  split at called
  · next failed =>
    cases called
    rw [allocPage_zero failed]
    exact ⟨level, .refl level, own, nofun⟩
  next succeeded =>
  cases called
  have takes := allocPage_takes succeeded
  generalize machine.pmm.allocPage.1 = phys at takes
  generalize machine.pmm.allocPage.2 = pmm at takes
  have aligned := takes.1.aligned
  have small : phys < 2 ^ 52 := by
    have := takes.1.lt
    omega
  have first : Extends level (Function.update level phys (some 3)) :=
    Extends.update (.inl (own.level_eq_none takes.1))
  have adopted := own.adopt 3
    (fillTable machine.memory phys (splitEntry pde) (List.finRange 512)) (fun _ _ => False) takes
    (fun other other_aligned different => agreeOn_fillTable (by omega)) (fun _ _ _ => Iff.rfl)
    (fun slot upper _ => by omega)
  generalize fillTable machine.memory phys (splitEntry pde) (List.finRange 512) = filled
    at adopted ⊢
  -- the address in the link gets a level too, in case it is another one
  obtain ⟨level', second, owning, reached⟩ : ∃ level',
      Extends (Function.update level phys (some 3)) level' ∧
      Owning base { machine with memory := filled, pmm } level' (fun _ _ => False) ∧
      level' (tableAddress (splitLink phys pde)) = some 3 := by
    rcases tableAddress_splitLink pde aligned small with same | large
    · refine ⟨_, .refl _, adopted, ?_⟩
      rw [same, Function.update_self]
    · obtain ⟨extended, owning⟩ := adopted.adoptHigh (tableAddress_aligned _) large
      exact ⟨_, extended, owning, Function.update_self ..⟩
  have extended := first.trans second
  refine ⟨level', extended, ⟨owning.write (extended _ _ here) ?_, extended _ _ own.atRoot⟩, ?_⟩
  · intro _ _ _ _ _
    exact reached
  · intro entry same
    rw [Option.some.injEq] at same
    subst same
    exact ⟨readEntry_writeEntry_self, reached⟩

/-- Opening an entry to user accesses does not change where it leads. -/
theorem widenUser_owns (own : OwnSpace base machine root level)
    (here : level parent = some depth) (index : Fin 512) :
    OwnSpace base { machine with memory := widenUser machine.memory parent index } root level := by
  refine ⟨own.write here ?_, own.atRoot⟩
  intro upper low done used small
  rw [present_or_user] at used
  rw [huge_or_user] at small
  rw [tableAddress_or_user]
  exact own.lower parent depth index here upper low done used small

theorem mapLeaf_owns {pdpt pd pt virt phys : Nat} {flags : Entry}
    (own : OwnSpace base machine root level) (atPdpt : level pdpt = some 1)
    (atPd : level pd = some 2) (atPt : level pt = some 3) :
    OwnSpace base (mapLeaf machine root pdpt pd pt virt phys flags) root level := by
  have leaf : ∀ {machine : Machine}, OwnSpace base machine root level →
      OwnSpace base (machine.setEntry pt (ptIndex virt) (leafEntry phys flags)) root level := by
    intro machine own
    refine ⟨own.write atPt ?_, own.atRoot⟩
    intro upper
    omega
  unfold mapLeaf
  dsimp only
  split
  · exact leaf (widenUser_owns (widenUser_owns (widenUser_owns own own.atRoot _) atPdpt _) atPd _)
  · exact leaf own

/-- Mapping a page below the upper half only writes to own pages. -/
theorem mapPagePml4_owns {virt phys : Nat} {flags : Entry} {ok : Bool}
    (own : OwnSpace base machine root level) (low : virt < 2 ^ 47)
    (called : mapPagePml4 machine root virt phys flags = (ok, machine')) :
    ∃ level', OwnSpace base machine' root level' := by
  have slot : (pml4Index virt).val < 256 := by
    simp only [pml4Index, Fin.ofNat]
    omega
  unfold mapPagePml4 at called
  split at called
  · cases called
    exact ⟨level, own⟩
  rcases first : getOrCreateTable machine root (pml4Index virt) 0 with ⟨ok₁, machine₁⟩
  rw [first] at called
  obtain ⟨level₁, _, own₁, used₁⟩ := getOrCreateTable_owns own own.atRoot first
  cases ok₁ with
  | false =>
      cases called
      exact ⟨level₁, own₁⟩
  | true =>
  have atPdpt := own₁.lower root 0 (pml4Index virt) own₁.atRoot (by omega) (fun _ => slot) id
    (used₁ rfl) (by omega)
  dsimp only at called
  generalize tableAddress (readEntry machine₁.memory root (pml4Index virt)) = pdpt
    at called atPdpt
  rcases second : getOrCreateTable machine₁ pdpt (pdptIndex virt) 0 with ⟨ok₂, machine₂⟩
  rw [second] at called
  obtain ⟨level₂, extends₂, own₂, used₂⟩ := getOrCreateTable_owns own₁ atPdpt second
  cases ok₂ with
  | false =>
      cases called
      exact ⟨level₂, own₂⟩
  | true =>
  have atPdpt := extends₂ _ _ atPdpt
  have atPd := own₂.lower pdpt 1 (pdptIndex virt) atPdpt (by omega) (by omega) id (used₂ rfl)
    (by omega)
  dsimp only at called
  generalize tableAddress (readEntry machine₂.memory pdpt (pdptIndex virt)) = pd at called atPd
  rcases third : getOrCreateTable machine₂ pd (pdIndex virt) 0 with ⟨ok₃, machine₃⟩
  rw [third] at called
  obtain ⟨level₃, extends₃, own₃, used₃⟩ := getOrCreateTable_owns own₂ atPd third
  cases ok₃ with
  | false =>
      cases called
      exact ⟨level₃, own₃⟩
  | true =>
  have atPdpt := extends₃ _ _ atPdpt
  have atPd := extends₃ _ _ atPd
  dsimp only at called
  split at called
  · rcases split : splitHugePage machine₃ pd (pdIndex virt)
      (readEntry machine₃.memory pd (pdIndex virt)) with ⟨link, machine₄⟩
    rw [split] at called
    obtain ⟨level₄, extends₄, own₄, linked⟩ := splitHugePage_owns own₃ atPd split
    cases link with
    | none =>
        cases called
        exact ⟨level₄, own₄⟩
    | some pde =>
        cases called
        exact ⟨level₄, mapLeaf_owns own₄ (extends₄ _ _ atPdpt) (extends₄ _ _ atPd)
          (linked pde rfl).2⟩
  · next small =>
    cases called
    have atPt := own₃.lower pd 2 (pdIndex virt) atPd (by omega) (by omega) id (used₃ rfl)
      (fun _ => by simpa using small)
    exact ⟨level₃, mapLeaf_owns own₃ atPdpt atPd atPt⟩

theorem unmapPagePml4_owns {virt frame : Nat} (own : OwnSpace base machine root level)
    (low : virt < 2 ^ 47) (called : unmapPagePml4 machine root virt = (frame, machine')) :
    OwnSpace base machine' root level := by
  have slot : (pml4Index virt).val < 256 := by
    simp only [pml4Index, Fin.ofNat]
    omega
  unfold unmapPagePml4 at called
  split at called
  · cases called
    exact own
  dsimp only at called
  split at called
  · cases called
    exact own
  next used₁ =>
  have atPdpt := own.lower root 0 (pml4Index virt) own.atRoot (by omega) (fun _ => slot) id
    (by simpa using used₁) (by omega)
  generalize tableAddress (readEntry machine.memory root (pml4Index virt)) = pdpt
    at called atPdpt
  split at called
  · cases called
    exact own
  next used₂ =>
  rw [Bool.or_eq_true, not_or] at used₂
  have atPd := own.lower pdpt 1 (pdptIndex virt) atPdpt (by omega) (by omega) id
    (by simpa using used₂.1) (by omega)
  generalize tableAddress (readEntry machine.memory pdpt (pdptIndex virt)) = pd at called atPd
  split at called
  · cases called
    exact own
  next used₃ =>
  rw [Bool.or_eq_true, not_or] at used₃
  have atPt := own.lower pd 2 (pdIndex virt) atPd (by omega) (by omega) id
    (by simpa using used₃.1) (fun _ => by simpa using used₃.2)
  split at called
  · cases called
    exact own
  · cases called
    refine ⟨own.write atPt ?_, own.atRoot⟩
    intro upper
    omega

end Mapping

/-! ## Trees that can be copied -/

/-- The table that the processor finds through a slot. -/
def hardwareChild (memory : ByteMemory) (table : Nat) (index : Fin 512) : Option Nat :=
  if present (readEntry memory table index) && !huge (readEntry memory table index) then
    some (frame (readEntry memory table index))
  else
    none

/-- The table that the processor finds along a path. -/
def hardwareTable (memory : ByteMemory) (root : Nat) (path : List (Fin 512)) : Option Nat :=
  descend (hardwareChild memory) root path

/-- A tree whose tables are in use, without leaves above the page directories.  Below its
first slot, which is copied, the addresses of tables are below `2 ^ 52`: the kernel takes
everything above the low twelve bits for the address. -/
structure Copyable (machine : Machine) (source : Nat) : Prop where
  aligned : source % 4096 = 0
  small : source < 2 ^ 52
  used : ∀ path table, path.length ≤ 3 → hardwareTable machine.memory source path = some table →
    ¬ machine.pmm.Available table
  no_gigabyte : ∀ path table index, path.length ≤ 1 →
    hardwareTable machine.memory source path = some table →
    present (readEntry machine.memory table index) = true →
    huge (readEntry machine.memory table index) = false
  links : ∀ path table index, path.length ≤ 2 → (path ++ [index]).head? = some 0 →
    hardwareTable machine.memory source path = some table →
    present (readEntry machine.memory table index) = true →
    huge (readEntry machine.memory table index) = false →
    HighClear (readEntry machine.memory table index)

theorem hardwareTable_snoc {memory : ByteMemory} {root table : Nat} {path : List (Fin 512)}
    (reached : hardwareTable memory root path = some table) (index : Fin 512) :
    hardwareTable memory root (path ++ [index]) = hardwareChild memory table index := by
  have here : descend (hardwareChild memory) root path = some table := reached
  rw [hardwareTable, descend_snoc, here]
  rfl

/-- The processor finds tables at page addresses below `2 ^ 52`. -/
theorem Copyable.table_bounds {machine : Machine} {source table : Nat} {path : List (Fin 512)}
    (copyable : Copyable machine source)
    (reached : hardwareTable machine.memory source path = some table) :
    table % 4096 = 0 ∧ table < 2 ^ 52 := by
  cases path using List.reverseRecOn with
  | nil =>
      cases reached
      exact ⟨copyable.aligned, copyable.small⟩
  | append_singleton path index =>
  obtain ⟨parent, _, found⟩ := descend_of_snoc reached
  simp only [hardwareChild] at found
  split at found
  · cases found
    exact ⟨frame_aligned _, frame_lt _⟩
  · cases found

/-- A table of a tree that can be copied, as it is found and as it is read. -/
structure SourceTable (base : Machine) (source : Nat) (path : List (Fin 512)) (table : Nat) :
    Prop where
  reached : hardwareTable base.memory source path = some table
  aligned : table % 4096 = 0
  small : table < 2 ^ 52
  used : ¬ base.pmm.Available table

section Source

variable {base : Machine} {source table : Nat} {path : List (Fin 512)} {index : Fin 512}

theorem Copyable.root (copyable : Copyable base source) : SourceTable base source [] source :=
  ⟨rfl, copyable.aligned, copyable.small, copyable.used [] source (by simp) rfl⟩

/-- The tables below the first slot are found where the kernel looks for them. -/
theorem SourceTable.next (copyable : Copyable base source)
    (here : SourceTable base source path table) (short : path.length ≤ 2)
    (first : (path ++ [index]).head? = some 0)
    (linked : present (readEntry base.memory table index) = true)
    (small : huge (readEntry base.memory table index) = false) :
    HighClear (readEntry base.memory table index) ∧
      SourceTable base source (path ++ [index])
        (tableAddress (readEntry base.memory table index)) := by
  have clear := copyable.links path table index short first here.reached linked small
  have reached : hardwareTable base.memory source (path ++ [index]) =
      some (frame (readEntry base.memory table index)) := by
    rw [hardwareTable_snoc here.reached, hardwareChild, linked, small]
    rfl
  rw [tableAddress_eq_frame clear]
  refine ⟨clear, reached, frame_aligned _, frame_lt _, ?_⟩
  apply copyable.used (path ++ [index]) _ _ reached
  simp only [List.length_append, List.length_singleton]
  omega

end Source

theorem WellFormed.hardwareTable_eq {machine : Machine} {source : Nat}
    {path : List (Fin 512)} (valid : WellFormed machine source) (short : path.length ≤ 3) :
    hardwareTable machine.memory source path = tableAt machine.memory source path := by
  have same : ∀ path table, path.length < 3 →
      descend (child machine.memory) source path = some table →
      ∀ index, hardwareChild machine.memory table index = child machine.memory table index := by
    intro path table short reached index
    unfold hardwareChild child
    split
    · next linked =>
      rw [Bool.and_eq_true] at linked
      rw [tableAddress_eq_frame (valid.upper path table index (by omega) reached linked.1).2]
    · rfl
  exact descend_congr same path short

theorem WellFormed.copyable {machine : Machine} {source : Nat}
    (valid : WellFormed machine source) (small : source < 2 ^ 52) :
    Copyable machine source where
  aligned := valid.root_aligned
  small := small
  used := by
    intro path table short reached
    rw [valid.hardwareTable_eq short] at reached
    exact valid.owned path table short reached
  no_gigabyte := by
    intro path table index short reached
    rw [valid.hardwareTable_eq (by omega)] at reached
    exact valid.no_gigabyte path table index short reached
  links := by
    intro path table index short _ reached used _
    rw [valid.hardwareTable_eq (by omega)] at reached
    exact (valid.upper path table index short reached used).2

/-! ## Copying -/

section Copying

variable {base machine machine' : Machine} {level : Nat → Option Nat}
  {pending : Nat → Fin 512 → Prop} {parent depth source target : Nat} {index : Fin 512}

theorem copyEntries_owns {slots : List (Fin 512)} (owning : Owning base machine level pending)
    (here : level target = some depth)
    (harmless : ∀ slot ∈ slots, depth = 0 ∧ 256 ≤ slot.val ∨ pending target slot) :
    Owning base { machine with memory := copyEntries machine.memory target source slots } level
      pending := by
  induction slots generalizing machine with
  | nil => exact owning
  | cons slot slots ih =>
  have written : Owning base
      (machine.setEntry target slot (readEntry machine.memory source slot)) level
      pending := by
    apply owning.write here
    intro _ low done
    rcases harmless slot (by simp) with ⟨top, high⟩ | waiting
    · have := low top
      omega
    · exact absurd waiting done
  exact ih written fun other member => harmless other (List.mem_cons_of_mem _ member)

theorem tableAddress_copyLink {phys : Nat} {entry : Entry} (aligned : phys % 4096 = 0)
    (small : phys < 2 ^ 52) (clear : HighClear entry) :
    tableAddress (copyLink phys entry) = phys := by
  rw [tableAddress_eq_frame (highClear_copyLink aligned small clear),
    frame_copyLink aligned small]

/-- A slot of an own page receives a copy of a table of the source, whose own slots are still
to be filled in. -/
theorem cloneTable_owns {fresh : Nat} {path : List (Fin 512)} {entry : Entry}
    (owning : Owning base machine level pending) (here : level parent = some depth)
    (clear : HighClear entry) (table : SourceTable base source path (tableAddress entry))
    (called : cloneTable machine parent index entry = (some fresh, machine')) :
    ∃ level', Extends level level' ∧ level fresh = none ∧ level' fresh = some (depth + 1) ∧
      Owning base machine' level'
        (fun page slot => (pending page slot ∧ (page, slot) ≠ (parent, index)) ∨ page = fresh) ∧
      (∀ slot, readEntry machine'.memory fresh slot =
        readEntry base.memory (tableAddress entry) slot) ∧
      ∀ page slot, page % 4096 = 0 → level page ≠ none → (page, slot) ≠ (parent, index) →
        readEntry machine'.memory page slot = readEntry machine.memory page slot := by
  unfold cloneTable at called
  dsimp only at called
  split at called
  · cases called
  next succeeded =>
  have takes := allocPage_takes succeeded
  cases called
  generalize machine.pmm.allocPage.1 = phys at takes ⊢
  generalize machine.pmm.allocPage.2 = pmm at takes
  have aligned := takes.1.aligned
  have small : phys < 2 ^ 52 := by
    have := takes.1.lt
    omega
  have new := owning.level_eq_none takes.1
  have extended : Extends level (Function.update level phys (some (depth + 1))) :=
    Extends.update (.inl new)
  have parentAligned := owning.aligned parent depth here
  have different : parent ≠ phys := by
    intro same
    rw [same, new] at here
    cases here
  have sourceDifferent : tableAddress entry ≠ phys := by
    intro same
    exact table.used (same ▸ owning.shrinks phys takes.1)
  have content : ∀ slot, readEntry
      (copyEntries machine.memory phys (tableAddress entry) (List.finRange 512)) phys slot =
        readEntry base.memory (tableAddress entry) slot := by
    intro slot
    rw [readEntry_copyEntries aligned table.aligned sourceDifferent, if_pos (List.mem_finRange _)]
    exact owning.readEntry_used table.aligned table.used table.small
  have kept : ∀ other, other % 4096 = 0 → other ≠ phys → ByteMemory.AgreeOn
      (copyEntries machine.memory phys (tableAddress entry) (List.finRange 512)) machine.memory
        other (other + 4096) := by
    intro other other_aligned apart
    exact agreeOn_copyEntries (by omega)
  generalize copyEntries machine.memory phys (tableAddress entry) (List.finRange 512) = copied
    at content kept ⊢
  have adopted := owning.adopt (depth + 1) copied
    (fun page slot => pending page slot ∨ page = phys) takes kept
    (fun other slot apart => by simp [apart]) (fun slot _ done => by simp at done)
  have linked : Owning base
      (Machine.setEntry { machine with memory := copied, pmm } parent index (copyLink phys entry))
      (Function.update level phys (some (depth + 1)))
      (fun page slot => pending page slot ∨ page = phys) := by
    apply adopted.write (extended _ _ here)
    intro _ _ _ _ _
    rw [tableAddress_copyLink aligned small clear, Function.update_self]
  refine ⟨_, extended, new, Function.update_self .., ?_, ?_, ?_⟩
  · apply linked.settle
    intro page depth' slot there _ waiting done _ _
    -- only the slot that was just written is no longer pending
    have apart : page ≠ phys := fun same => done (.inr same)
    have same : (page, slot) = (parent, index) := by
      by_contra other
      rcases waiting with waiting | new
      · exact done (.inl ⟨waiting, other⟩)
      · exact apart new
    cases same
    rw [extended _ _ here, Option.some.injEq] at there
    subst there
    rw [Machine.setEntry, readEntry_writeEntry_self, tableAddress_copyLink aligned small clear,
      Function.update_self]
  · intro slot
    rw [readEntry_writeEntry_of_ne parentAligned aligned (by simp [different.symm])]
    exact content slot
  · intro page slot page_aligned known apart
    have other : page ≠ phys := by
      intro same
      rw [same] at known
      exact known new
    rw [readEntry_writeEntry_of_ne parentAligned page_aligned apart]
    exact readEntry_congr (kept page page_aligned other)

/-- A loop over the slots of `target`, a copy of `source`: the slots in `todo` are still to
come, and what was there before is kept. -/
structure Filling (base before machine : Machine) (known level : Nat → Option Nat)
    (pending : Nat → Fin 512 → Prop) (source target depth : Nat) (todo : List (Fin 512)) :
    Prop where
  owning : Owning base machine level fun page slot =>
    pending page slot ∨ page = target ∧ slot ∈ todo
  extended : Extends known level
  here : level target = some depth
  content : ∀ slot ∈ todo,
    readEntry machine.memory target slot = readEntry base.memory source slot
  kept : ∀ page slot, page % 4096 = 0 → known page ≠ none → page ≠ target →
    readEntry machine.memory page slot = readEntry before.memory page slot
  distinct : todo.Nodup

namespace Filling

variable {before machine'' : Machine} {known level' level'' : Nat → Option Nat}
  {rest todo : List (Fin 512)} {fresh : Nat}

/-- A slot that is copied as it is. -/
theorem skip
    (loop : Filling base before machine known level pending source target depth (index :: rest))
    (harmless : present (readEntry base.memory source index) = false ∨
      depth = 2 ∧ huge (readEntry base.memory source index) = true) :
    Filling base before machine known level pending source target depth rest := by
  have same := loop.content index (by simp)
  refine ⟨?_, loop.extended, loop.here, ?_, loop.kept, (List.nodup_cons.mp loop.distinct).2⟩
  · apply loop.owning.settle
    intro page depth' slot there _ waiting done used small
    rcases waiting with waiting | ⟨rfl, member⟩
    · exact absurd (.inl waiting) done
    · rcases List.mem_cons.mp member with rfl | later
      · rw [loop.here, Option.some.injEq] at there
        subst there
        rw [same] at used small
        rcases harmless with unused | ⟨bottom, leaf⟩
        · rw [unused] at used
          cases used
        · rw [small bottom] at leaf
          cases leaf
      · exact absurd (.inr ⟨rfl, later⟩) done
  · intro slot member
    exact loop.content slot (List.mem_cons_of_mem _ member)

/-- A slot that receives a copy of a table. -/
theorem clone {path : List (Fin 512)} {src : Nat}
    (loop : Filling base before machine known level pending source target depth (index :: rest))
    (clear : HighClear (readEntry base.memory source index))
    (table : SourceTable base src path (tableAddress (readEntry base.memory source index)))
    (called : cloneTable machine target index (readEntry base.memory source index) =
      (some fresh, machine')) :
    ∃ level', Extends level level' ∧ level fresh = none ∧
      Filling base machine' machine' level' level'
        (fun page slot => pending page slot ∨ page = target ∧ slot ∈ rest)
        (tableAddress (readEntry base.memory source index)) fresh (depth + 1)
        (List.finRange 512) ∧
      ∀ page slot, page % 4096 = 0 → level page ≠ none → (page, slot) ≠ (target, index) →
        readEntry machine'.memory page slot = readEntry machine.memory page slot := by
  obtain ⟨level', extended, new, here, owning, content, kept⟩ :=
    cloneTable_owns loop.owning loop.here clear table called
  refine ⟨level', extended, new, ⟨?_, .refl _, here, fun slot _ => content slot,
    fun _ _ _ _ _ => rfl, List.nodup_finRange 512⟩, kept⟩
  apply owning.settle
  intro page depth' slot _ _ waiting done
  exfalso
  apply done
  rcases waiting with ⟨waiting | ⟨rfl, member⟩, apart⟩ | rfl
  · exact .inl (.inl waiting)
  · rcases List.mem_cons.mp member with rfl | later
    · exact absurd rfl apart
    · exact .inl (.inr ⟨rfl, later⟩)
  · exact .inr ⟨rfl, List.mem_finRange slot⟩

/-- The loop goes on when the copied table is finished. -/
theorem resume {source' depth' : Nat}
    (loop : Filling base before machine known level pending source target depth (index :: rest))
    (extended : Extends level level') (new : level fresh = none)
    (kept : ∀ page slot, page % 4096 = 0 → level page ≠ none →
      (page, slot) ≠ (target, index) →
      readEntry machine'.memory page slot = readEntry machine.memory page slot)
    (finished : Filling base machine' machine'' level' level''
      (fun page slot => pending page slot ∨ page = target ∧ slot ∈ rest) source' fresh depth'
      []) :
    Filling base before machine'' known level'' pending source target depth rest := by
  obtain ⟨notLater, distinct⟩ := List.nodup_cons.mp loop.distinct
  have whole := extended.trans finished.extended
  have unchanged : ∀ page slot, page % 4096 = 0 → level page ≠ none →
      (page, slot) ≠ (target, index) →
      readEntry machine''.memory page slot = readEntry machine.memory page slot := by
    intro page slot page_aligned levelled apart
    have other : page ≠ fresh := by
      intro same
      rw [same] at levelled
      exact levelled new
    obtain ⟨depth, some⟩ := Option.ne_none_iff_exists'.mp levelled
    rw [finished.kept page slot page_aligned (by rw [extended _ _ some]; nofun) other]
    exact kept page slot page_aligned levelled apart
  refine ⟨?_, loop.extended.trans whole, whole _ _ loop.here, ?_, ?_, distinct⟩
  · apply finished.owning.settle
    intro page _ slot _ _ waiting done
    rcases waiting with waiting | ⟨_, member⟩
    · exact absurd waiting done
    · cases member
  · intro slot member
    have apart : slot ≠ index := by
      intro same
      exact notLater (same ▸ member)
    rw [unchanged target slot (loop.owning.aligned _ _ loop.here) (by rw [loop.here]; nofun)
      (by simp [apart])]
    exact loop.content slot (List.mem_cons_of_mem _ member)
  · intro page slot page_aligned levelled other
    obtain ⟨depth, some⟩ := Option.ne_none_iff_exists'.mp levelled
    rw [unchanged page slot page_aligned (by rw [loop.extended _ _ some]; nofun)
      (by simp [other])]
    exact loop.kept page slot page_aligned levelled other

/-- The slots of a page table are in order as they are. -/
theorem bottom
    (loop : Filling base before machine known level pending source target 3 todo) :
    Filling base before machine known level pending source target 3 [] := by
  refine ⟨?_, loop.extended, loop.here, nofun, loop.kept, List.nodup_nil⟩
  apply loop.owning.settle
  intro page depth' slot there upper waiting done
  rcases waiting with waiting | ⟨rfl, _⟩
  · exact absurd (.inl waiting) done
  · rw [loop.here, Option.some.injEq] at there
    omega

theorem directory_step {src sourcePd pd : Nat} {path : List (Fin 512)}
    (copyable : Copyable base src) (directory : SourceTable base src path sourcePd)
    (short : path.length = 2) (first : path.head? = some 0)
    (loop : ∃ level, Filling base before machine known level pending sourcePd pd 2
      (index :: rest))
    (called : clonePageTable sourcePd pd machine index = (true, machine')) :
    ∃ level, Filling base before machine' known level pending sourcePd pd 2 rest := by
  obtain ⟨level, loop⟩ := loop
  have same : readEntry machine.memory sourcePd index = readEntry base.memory sourcePd index :=
    loop.owning.readEntry_used directory.aligned directory.used directory.small
  simp only [clonePageTable, same] at called
  split at called
  · next skipped =>
    cases called
    refine ⟨level, loop.skip ?_⟩
    rcases Bool.or_eq_true _ _ ▸ skipped with unused | leaf
    · exact .inl (by simpa using unused)
    · exact .inr ⟨rfl, leaf⟩
  next linked =>
  rw [Bool.not_eq_true, Bool.or_eq_false_iff] at linked
  obtain ⟨clear, table⟩ := directory.next copyable (by omega)
    (by rw [List.head?_append, first]; rfl) (by simpa using linked.1) linked.2
  rcases copied : cloneTable machine pd index (readEntry base.memory sourcePd index) with
    ⟨_ | fresh, machine₁⟩
  · rw [copied] at called
    cases called
  · rw [copied] at called
    cases called
    obtain ⟨level', extended, new, child, kept⟩ := loop.clone clear table copied
    exact ⟨level', loop.resume extended new kept child.bottom⟩

/-- One slot of the PDPT, with the page directory below it. -/
theorem pdpt_step {src sourcePdpt pdpt : Nat} (copyable : Copyable base src)
    (table : SourceTable base src [0] sourcePdpt)
    (loop : ∃ level, Filling base before machine known level pending sourcePdpt pdpt 1
      (index :: rest))
    (called : clonePageDirectory sourcePdpt pdpt machine index = (true, machine')) :
    ∃ level, Filling base before machine' known level pending sourcePdpt pdpt 1 rest := by
  obtain ⟨level, loop⟩ := loop
  have same : readEntry machine.memory sourcePdpt index =
      readEntry base.memory sourcePdpt index :=
    loop.owning.readEntry_used table.aligned table.used table.small
  simp only [clonePageDirectory, same] at called
  split at called
  · next skipped =>
    cases called
    refine ⟨level, loop.skip (.inl ?_)⟩
    -- there are no leaves at this level
    have noLeaf := copyable.no_gigabyte [0] sourcePdpt index (by simp) table.reached
    rcases Bool.or_eq_true _ _ ▸ skipped with unused | leaf
    · simpa using unused
    · by_contra used
      rw [noLeaf (by simpa using used)] at leaf
      cases leaf
  next linked =>
  rw [Bool.not_eq_true, Bool.or_eq_false_iff] at linked
  obtain ⟨clear, directory⟩ := table.next copyable (by simp) (by simp)
    (by simpa using linked.1) linked.2
  rcases copied : cloneTable machine pdpt index (readEntry base.memory sourcePdpt index) with
    ⟨_ | fresh, machine₁⟩
  · rw [copied] at called
    cases called
  · rw [copied] at called
    dsimp only at called
    obtain ⟨level', extended, new, child, kept⟩ := loop.clone clear directory copied
    obtain ⟨level'', finished⟩ := forSlots_invariant
      (fun todo machine'' => ∃ level'', Filling base machine₁ machine'' level' level''
        (fun page slot => pending page slot ∨ page = pdpt ∧ slot ∈ rest)
        (tableAddress (readEntry base.memory sourcePdpt index)) fresh 2 todo)
      (fun _ _ _ _ loop called =>
        directory_step copyable directory (by simp) (by simp) loop called)
      ⟨level', child⟩ called
    exact ⟨level'', loop.resume extended new kept finished⟩

end Filling

/-- A copy of the tables below the first slot of the source is begun in a page of the
allocator. -/
theorem copyTable_owns {pmm : Pmm} {page src : Nat} {path : List (Fin 512)}
    (owning : Owning base machine level fun _ _ => False)
    (table : SourceTable base src path source) (takes : Pmm.Takes machine.pmm pmm page) :
    level page = none ∧ Filling base
      { machine with
        memory := copyEntries machine.memory page source (List.finRange 512), pmm }
      { machine with
        memory := copyEntries machine.memory page source (List.finRange 512), pmm }
      (Function.update level page (some 1)) (Function.update level page (some 1))
      (fun _ _ => False) source page 1 (List.finRange 512) := by
  have aligned := takes.1.aligned
  have sourceDifferent : source ≠ page := by
    intro same
    exact table.used (same ▸ owning.shrinks page takes.1)
  refine ⟨owning.level_eq_none takes.1, ?_, .refl _, Function.update_self .., ?_,
    fun _ _ _ _ _ => rfl, List.nodup_finRange 512⟩
  · apply owning.adopt 1 _ _ takes
    · intro other other_aligned apart
      exact agreeOn_copyEntries (by omega)
    · intro other slot apart
      simp [apart]
    · intro slot _ done
      exact absurd (.inr ⟨rfl, List.mem_finRange slot⟩) done
  · intro slot _
    rw [readEntry_copyEntries aligned table.aligned sourceDifferent,
      if_pos (List.mem_finRange _)]
    exact owning.readEntry_used table.aligned table.used table.small

/-- The tables that a new address space is edited through are its own. -/
theorem copyKernelMappings_owns (copyable : Copyable base (sourceRoot base source))
    (owning : Owning base machine level fun _ _ => False) (here : level target = some 0)
    (current : sourceRoot machine source = sourceRoot base source)
    (called : copyKernelMappings machine target source = (true, machine')) :
    ∃ level', OwnSpace base machine' target level' := by
  have root := copyable.root
  simp only [copyKernelMappings] at called
  split at called
  · cases called
  rw [show (if source = 0 then machine.cr3 else source) = sourceRoot base source from current]
    at called
  have shared : Owning base { machine with
      memory := copyEntries machine.memory target (sourceRoot base source)
        ((List.finRange 512).filter fun index => 256 ≤ index.val) } level
      fun _ _ => False := by
    apply copyEntries_owns owning here
    intro slot member
    exact .inl ⟨rfl, by simpa using member⟩
  generalize copyEntries machine.memory target (sourceRoot base source)
    ((List.finRange 512).filter fun index => 256 ≤ index.val) = memory at shared called
  have same : readEntry memory (sourceRoot base source) 0 =
      readEntry base.memory (sourceRoot base source) 0 :=
    shared.readEntry_used root.aligned root.used root.small
  simp only [same] at called
  split at called
  · cases called
    exact ⟨level, shared, here⟩
  next linked =>
  split at called
  · cases called
  next succeeded =>
  have takes := allocPage_takes succeeded
  generalize machine.pmm.allocPage.1 = pdpt at takes called
  generalize machine.pmm.allocPage.2 = pmm at takes called
  have present : present (readEntry base.memory (sourceRoot base source) 0) = true := by
    simpa using linked
  obtain ⟨clear, table⟩ := root.next copyable (by simp) (by rfl) present
    (copyable.no_gigabyte [] _ 0 (by simp) rfl present)
  obtain ⟨new, begin⟩ := copyTable_owns shared table takes
  have extended : Extends level (Function.update level pdpt (some 1)) :=
    Extends.update (.inl new)
  dsimp only at begin
  generalize copyEntries memory pdpt
    (tableAddress (readEntry base.memory (sourceRoot base source) 0)) (List.finRange 512) =
      copied at begin called
  rcases loop : forSlots (clonePageDirectory
      (tableAddress (readEntry base.memory (sourceRoot base source) 0)) pdpt)
      { machine with memory := copied, pmm } (List.finRange 512) with ⟨ok, final⟩
  rw [loop] at called
  cases ok with
  | false => cases called
  | true =>
  cases called
  obtain ⟨level', finished⟩ := forSlots_invariant
    (fun todo final => ∃ level', Filling base { machine with memory := copied, pmm } final
      (Function.update level pdpt (some 1)) level' (fun _ _ => False)
      (tableAddress (readEntry base.memory (sourceRoot base source) 0)) pdpt 1 todo)
    (fun _ _ _ _ loop called => Filling.pdpt_step copyable table loop called)
    ⟨_, begin⟩ loop
  have atRoot := finished.extended _ _ (extended _ _ here)
  have done : Owning base final level' fun _ _ => False := by
    apply finished.owning.settle
    intro page _ slot _ _ waiting
    rcases waiting with waiting | ⟨_, member⟩
    · exact waiting.elim
    · cases member
  refine ⟨level', done.write atRoot ?_, atRoot⟩
  intro _ _ _ _ _
  have small : pdpt < 2 ^ 52 := by
    have := takes.1.lt
    omega
  rw [tableAddress_copyLink takes.1.aligned small clear]
  exact finished.here

theorem newAddressSpace_owns {root : Nat} (copyable : Copyable base (sourceRoot base source))
    (created : newAddressSpace base source = some (root, machine)) :
    ∃ level, OwnSpace base machine root level := by
  simp only [newAddressSpace, createAddressSpace] at created
  rcases base.pmm.allocPage_cases with failed | takes
  · simp [failed] at created
  simp only [takes.1.pos.ne', ↓reduceIte] at created
  generalize base.pmm.allocPage.1 = fresh at takes created
  generalize base.pmm.allocPage.2 = pmm at takes created
  have unowned : ∀ {depth : Nat}, none ≠ some depth := (Option.some_ne_none _).symm
  have nothing : Owning base base (fun _ => none) fun _ _ => False :=
    ⟨fun _ _ owned => absurd owned unowned, fun _ _ owned => absurd owned unowned,
      fun _ _ owned => absurd owned unowned, fun _ => id,
      fun _ _ _ => ByteMemory.AgreeOn.refl _ _ _, fun _ _ _ owned => absurd owned unowned⟩
  have adopted := nothing.adopt 0 (base.memory.fill fresh pageSize 0) (fun _ _ => False) takes
    (fun other other_aligned different => ByteMemory.agreeOn_fill (by
      have := takes.1.aligned
      simp only [pageSize]
      omega))
    (fun _ _ _ => Iff.rfl) (fun slot _ _ => by
      rw [show readEntry (base.memory.fill fresh pageSize 0) fresh slot = 0#64 from
        readEntry_fill_zero]
      rfl)
  generalize base.memory.fill fresh pageSize 0 = memory at adopted created
  rcases copied : copyKernelMappings { base with memory, pmm } fresh source with ⟨ok, final⟩
  rw [copied] at created
  cases ok with
  | false => cases created
  | true =>
      cases created
      exact copyKernelMappings_owns copyable adopted (Function.update_self ..) rfl copied

end Copying

/-- Calls on addresses below the upper half. -/
def VmmEvent.Below : VmmEvent → Prop
  | .map virt _ _ _ => virt < 2 ^ 47
  | .unmap virt _ => virt < 2 ^ 47
  | .other => False

/-- Every call below the upper half leaves the space with pages of its own. -/
theorem VmmStep.owns {base machine machine' : Machine} {root : Nat} {event : VmmEvent}
    (own : ∃ level, OwnSpace base machine root level) (low : event.Below)
    (step : VmmStep root machine event machine') :
    ∃ level, OwnSpace base machine' root level := by
  obtain ⟨level, own⟩ := own
  cases step with
  | map called => exact mapPagePml4_owns own low called
  | unmap called => exact ⟨level, unmapPagePml4_owns own low called⟩
  | other _ => exact low.elim

/-- The tables below the upper half are pages that the allocator had. -/
theorem OwnSpace.level_of_table {base machine : Machine} {root : Nat}
    {level : Nat → Option Nat} (own : OwnSpace base machine root level)
    (valid : WellFormed machine root) {path : List (Fin 512)} {table : Nat}
    (short : path.length ≤ 3) (lower : ∀ index ∈ path.head?, index.val < 256)
    (reached : tableAt machine.memory root path = some table) :
    level table = some path.length ∧ base.pmm.Available table := by
  induction path using List.reverseRecOn generalizing table with
  | nil =>
      cases reached
      exact ⟨own.atRoot, (own.fresh _ _ own.atRoot).resolve_right fun other => by
        cases other.2⟩
  | append_singleton path index ih =>
  obtain ⟨parent, above, link⟩ := descend_of_snoc reached
  simp only [List.length_append, List.length_singleton] at short ⊢
  obtain ⟨used, small, rfl⟩ := child_eq_some_iff.mp link
  have parentLevel := (ih (by omega)
    (fun first member => lower first (by simp [List.head?_append, Option.mem_def.mp member]))
    above).1
  have here := own.lower _ _ index parentLevel (by omega)
    (fun top => lower index (by rw [List.length_eq_zero_iff.mp top]; rfl)) id used
    fun _ => small
  refine ⟨here, (own.fresh _ _ here).resolve_right fun other => ?_⟩
  rw [tableAddress_eq_frame (valid.upper path parent index (by omega) above used).2] at other
  exact absurd (frame_lt _) (Nat.not_lt.mpr other.1)

section Walks

variable {left right : ByteMemory} {root table : Nat} {path : List (Fin 512)}

theorem hardwareTable_congr
    (agree : ∀ path table, path.length ≤ 3 → hardwareTable right root path = some table →
      ByteMemory.AgreeOn left right table (table + 4096)) (short : path.length ≤ 3) :
    hardwareTable left root path = hardwareTable right root path := by
  have same : ∀ path table, path.length < 3 →
      descend (hardwareChild right) root path = some table →
      ∀ index, hardwareChild left table index = hardwareChild right table index := by
    intro path table short reached index
    rw [hardwareChild, hardwareChild, readEntry_congr (agree path table short.le reached)]
  exact descend_congr same path short

/-- The processor only reads the tables that it finds. -/
theorem hardwareWalk_congr
    (agree : ∀ path table, path.length ≤ 3 → hardwareTable right root path = some table →
      ByteMemory.AgreeOn left right table (table + 4096)) (virt : Nat) :
    hardwareWalk left root virt = hardwareWalk right root virt := by
  have read : ∀ path table (index : Fin 512), path.length ≤ 3 →
      hardwareTable right root path = some table →
      readEntry left table index = readEntry right table index :=
    fun path table index short reached => readEntry_congr (agree path table short reached)
  have child : ∀ path table (index : Fin 512), hardwareTable right root path = some table →
      present (readEntry right table index) = true → huge (readEntry right table index) = false →
      hardwareTable right root (path ++ [index]) = some (frame (readEntry right table index)) := by
    intro path table index reached linked small
    rw [hardwareTable_snoc reached, hardwareChild, linked, small]
    rfl
  have top := read [] root (pml4Index virt) (by simp) rfl
  simp only [hardwareWalk, top]
  split
  · rfl
  next used =>
  simp only [not_or, Bool.not_eq_false, Bool.not_eq_true] at used
  have atPdpt := child [] root (pml4Index virt) rfl used.2.1 used.2.2
  have second := read _ _ (pdptIndex virt) (by simp) atPdpt
  simp only [walkPdpt, second]
  split
  · rfl
  next used =>
  split
  · rfl
  next small =>
  have atPd := child _ _ (pdptIndex virt) atPdpt (by simpa using used) (by simpa using small)
  have third := read _ _ (pdIndex virt) (by simp) atPd
  simp only [walkPageDirectory, third]
  split
  · rfl
  next used =>
  split
  · rfl
  next small =>
  have atPt := child _ _ (pdIndex virt) atPd (by simpa using used) (by simpa using small)
  have last := read _ _ (ptIndex virt) (by simp) atPt
  simp only [walkPageTable, last]

end Walks

/-- Whatever is mapped and unmapped below the upper half of a new address space, the tables of
the space that it was copied from stay as they were, and so do its translations. -/
theorem source_unchanged {boot machine machine' : Machine} {source root : Nat}
    {events : List VmmEvent} (copyable : Copyable boot (sourceRoot boot source))
    (created : newAddressSpace boot source = some (root, machine))
    (run : Run (VmmStep root) machine events machine')
    (low : ∀ event ∈ events, event.Below) :
    (∀ path, path.length ≤ 3 →
      hardwareTable machine'.memory (sourceRoot boot source) path =
        hardwareTable boot.memory (sourceRoot boot source) path) ∧
    (∀ path table, path.length ≤ 3 →
      hardwareTable boot.memory (sourceRoot boot source) path = some table →
      ByteMemory.AgreeOn machine'.memory boot.memory table (table + 4096)) ∧
    ∀ virt, hardwareWalk machine'.memory (sourceRoot boot source) virt =
      hardwareWalk boot.memory (sourceRoot boot source) virt := by
  obtain ⟨level, own⟩ : ∃ level, OwnSpace boot machine' root level :=
    @Run.invariant _ _ _ _ _ _ (fun state => ∃ level, OwnSpace boot state root level)
      VmmEvent.Below (fun _ _ _ own low step => step.owns own low) run
      (newAddressSpace_owns copyable created) low
  have agree : ∀ path table, path.length ≤ 3 →
      hardwareTable boot.memory (sourceRoot boot source) path = some table →
      ByteMemory.AgreeOn machine'.memory boot.memory table (table + 4096) := by
    intro path table short reached
    obtain ⟨aligned, small⟩ := copyable.table_bounds reached
    exact own.outside table aligned
      (own.level_of_used (copyable.used path table short reached) small)
  exact ⟨fun path short => hardwareTable_congr agree short, agree, hardwareWalk_congr agree⟩

/-- A user page splits the first 2 MiB page of a copy of the boot tables. -/
theorem source_unchanged_after_boot :
    ∃ root machine ok machine',
      newAddressSpace (bootMachine fun _ => 0) 0 = some (root, machine) ∧
      mapPagePml4 machine root 0x1000 0x900000 7 = (ok, machine') ∧
      ∀ virt, hardwareWalk machine'.memory (sourceRoot (bootMachine fun _ => 0) 0) virt =
        hardwareWalk (bootMachine fun _ => 0).memory (sourceRoot (bootMachine fun _ => 0) 0)
          virt := by
  obtain ⟨root, machine, -, created, -⟩ := newAddressSpace_bootMachine fun _ => 0
  rcases mapped : mapPagePml4 machine root 0x1000 0x900000 7 with ⟨ok, machine'⟩
  have run : Run (VmmStep root) machine [.map 0x1000 0x900000 7 ok] machine' :=
    Run.start.next (.map mapped)
  have low : ∀ event ∈ [VmmEvent.map 0x1000 0x900000 7 ok], event.Below := by
    simp [VmmEvent.Below]
  have copyable := (kernelSpace_bootMachine fun _ => 0).toWellFormed.copyable (by decide)
  exact ⟨root, machine, ok, machine', created, mapped,
    (source_unchanged copyable created run low).2.2⟩

end Charis.Memory
