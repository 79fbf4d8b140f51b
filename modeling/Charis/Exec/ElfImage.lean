import Charis.Exec.Elf

/-!
# The memory image of an executable

Seen from the task, loading a segment clears the pages that the segment touches
and then stores its file bytes.  This module relates the page tables and frames
that the loader works on to that image.
-/

namespace Charis.Exec

open Charis.Lib
open Charis.Memory
open Charis.Memory.Entry
open Charis.Fs

/-! ## Images -/

/-- Pages that a segment is given. -/
def Phdr.pages (phdr : Phdr) : Set Nat :=
  {page | phdr.memsz ≠ 0 ∧ phdr.pageStart ≤ page * pageSize ∧ page * pageSize < phdr.pageEnd}

theorem Phdr.pageStart_le_pageEnd (phdr : Phdr) : phdr.pageStart ≤ phdr.pageEnd := by
  simp only [Phdr.pageEnd, Phdr.pageStart, pageSize]
  omega

/-- A segment is given whole pages. -/
theorem Phdr.pageCount_mul (phdr : Phdr) :
    (phdr.pageEnd - phdr.pageStart) / pageSize * pageSize =
      phdr.pageEnd - phdr.pageStart := by
  simp only [Phdr.pageEnd, Phdr.pageStart, pageSize]
  omega

/-- The image after a segment: its pages are cleared and its file bytes stored. -/
def Phdr.place (content : ByteMemory) (phdr : Phdr) (bytes : List UInt8) : ByteMemory :=
  if phdr.memsz = 0 then content
  else
    (content.fill phdr.pageStart (phdr.pageEnd - phdr.pageStart) 0).storeBytes phdr.vaddr
      bytes

/-- The image after the segments of a file. -/
def image (file : ByteMemory) (content : ByteMemory) (segments : List Phdr) : ByteMemory :=
  segments.foldl
    (fun content phdr => phdr.place content (file.loadBytes phdr.offset phdr.filesz)) content

/-- The pages of a list of segments. -/
def segmentPages (segments : List Phdr) : Set Nat :=
  {page | ∃ phdr ∈ segments, page ∈ phdr.pages}

/-- A callback delivers the bytes of a file. -/
def Delivers (read : ReadCallback) (file : ByteMemory) : Prop :=
  ∀ offset count bytes, read offset count = some bytes →
    bytes = file.loadBytes offset bytes.length

/-- A callback delivers as many bytes as it is asked for. -/
def Exact (read : ReadCallback) : Prop :=
  ∀ offset count bytes, read offset count = some bytes → bytes.length = count

/-- State of the loader: the given pages are user pages on frames of their own that
hold the content, and every other page is translated as at the start. -/
structure Loaded (start machine : Machine) (root : Nat) (pages : Set Nat)
    (content : ByteMemory) : Prop where
  wellFormed : WellFormed machine root
  kept : ∀ page, page ∉ pages → pageMap machine root page = pageMap start root page
  mapped : ∀ page ∈ pages, ∃ translation, pageMap machine root page = some translation ∧
    translation.user = true ∧ translation.frame % 4096 = 0 ∧
    Foreign machine root translation.frame ∧
    ∀ offset < pageSize,
      machine.memory (translation.frame + offset) = content (page * pageSize + offset)
  distinct : ∀ page ∈ pages, ∀ page' ∈ pages, ∀ translation translation',
    pageMap machine root page = some translation →
    pageMap machine root page' = some translation' →
    translation.frame = translation'.frame → page = page'

namespace Loaded

variable {start machine machine' : Machine} {root : Nat} {pages : Set Nat}
  {content : ByteMemory}

theorem refl (valid : WellFormed machine root) (content : ByteMemory) :
    Loaded machine machine root ∅ content where
  wellFormed := valid
  kept := fun _ _ => rfl
  mapped := fun _ member => absurd member (Set.notMem_empty _)
  distinct := fun _ member => absurd member (Set.notMem_empty _)

theorem ringThree_read (loaded : Loaded start machine root pages content) {virt : Nat}
    (member : virt / pageSize ∈ pages) :
    (ringThree machine.memory root virt false).map machine.memory = some (content virt) := by
  obtain ⟨translation, found, access, -, -, same⟩ := loaded.mapped _ member
  rw [pageMap, hardwareWalk_page] at found
  have byte := same (virt % pageSize) (Nat.mod_lt _ (by norm_num))
  rw [Nat.div_add_mod'] at byte
  simp [ringThree, found, access, byte]

/-- The frame of a loaded page is not the given one. -/
def Apart (machine : Machine) (root : Nat) (pages : Set Nat) (phys : Nat) : Prop :=
  ∀ page ∈ pages, ∀ translation, pageMap machine root page = some translation →
    translation.frame ≠ phys

/-- Taking and clearing a page is not seen by the tree. -/
theorem untouched_fill (valid : WellFormed machine root) {phys : Nat} {pmm : Pmm}
    (taken : Pmm.Takes machine.pmm pmm phys) :
    Untouched machine
      { machine with memory := machine.memory.fill phys pageSize 0, pmm } root := by
  intro path table short reached
  have aligned := taken.1.aligned
  have tableAligned := valid.table_aligned short reached
  have owned := valid.owned path table short reached
  have different : table ≠ phys := by
    rintro rfl
    exact owned taken.1
  exact ⟨ByteMemory.agreeOn_fill (by simp only [pageSize]; omega),
    fun free => owned ((taken.2 table).mp free).1⟩

/-- Edits that leave the tables and the frames of the loaded pages alone. -/
theorem untouched (loaded : Loaded start machine root pages content)
    (same : Untouched machine machine' root)
    (frames : ∀ page, page % 4096 = 0 → Foreign machine root page →
      (∃ loaded ∈ pages, ∃ translation, pageMap machine root loaded = some translation ∧
        translation.frame = page) →
      ¬ machine'.pmm.Available page ∧
        ByteMemory.AgreeOn machine'.memory machine.memory page (page + 4096)) :
    pageMap machine' root = pageMap machine root ∧
      Loaded start machine' root pages content := by
  have kept := fun path table short reached => (same path table short reached).1
  have valid : WellFormed machine' root := loaded.wellFormed.elsewhere kept
    fun path table short reached => (same path table short reached).2
  have samePages : pageMap machine' root = pageMap machine root :=
    pageMap_congr loaded.wellFormed valid (leafView_elsewhere kept)
  refine ⟨samePages, {
    wellFormed := valid
    kept := by
      rw [samePages]
      exact loaded.kept
    mapped := by
      intro page member
      obtain ⟨translation, found, access, aligned, foreign, held⟩ := loaded.mapped page member
      obtain ⟨owned, agree⟩ := frames _ aligned foreign ⟨page, member, translation, found, rfl⟩
      refine ⟨translation, by rw [samePages, found], access, aligned,
        ⟨owned, fun path short reached =>
          foreign.2 path short ((tableAt_elsewhere kept short).symm.trans reached)⟩, ?_⟩
      intro offset inside
      rw [agree _ (by omega) (by simp only [pageSize] at inside; omega), held offset inside]
    distinct := by
      rw [samePages]
      exact loaded.distinct }⟩

/-- A page is taken from the allocator and cleared. -/
theorem take (loaded : Loaded start machine root pages content) {phys : Nat} {pmm : Pmm}
    (taken : Pmm.Takes machine.pmm pmm phys) {cleared : Machine}
    (clear : cleared = { machine with memory := machine.memory.fill phys pageSize 0, pmm }) :
    pageMap cleared root = pageMap machine root ∧
      Loaded start cleared root pages content ∧ Foreign cleared root phys ∧
      Apart cleared root pages phys := by
  subst clear
  have same := untouched_fill loaded.wellFormed taken
  have physAligned := taken.1.aligned
  have physAvailable := taken.1
  obtain ⟨samePages, after⟩ := loaded.untouched same (by
    intro page aligned foreign _
    have different : page ≠ phys := by
      rintro rfl
      exact foreign.1 physAvailable
    exact ⟨fun free => foreign.1 ((taken.2 page).mp free).1,
      ByteMemory.agreeOn_fill (by simp only [pageSize]; omega)⟩)
  refine ⟨samePages, after, ⟨fun free => ((taken.2 phys).mp free).2 rfl, ?_⟩, ?_⟩
  · intro path short reached
    have old := (tableAt_elsewhere (fun path table short reached =>
      (same path table short reached).1) short).symm.trans reached
    exact loaded.wellFormed.owned path phys short old physAvailable
  · rintro page member translation found rfl
    rw [samePages] at found
    obtain ⟨translation', found', -, -, foreign, -⟩ := loaded.mapped page member
    rw [found] at found'
    cases found'
    exact foreign.1 physAvailable

/-- Loaded pages that an edit of the tree does not concern. -/
theorem mapped_of_grown (loaded : Loaded start machine root pages content)
    (grown : Grown machine machine' root) {page : Nat} (member : page ∈ pages)
    (same : pageMap machine' root page = pageMap machine root page) :
    ∃ translation, pageMap machine' root page = some translation ∧
      translation.user = true ∧ translation.frame % 4096 = 0 ∧
      Foreign machine' root translation.frame ∧
      ∀ offset < pageSize,
        machine'.memory (translation.frame + offset) = content (page * pageSize + offset) := by
  obtain ⟨translation, found, access, aligned, foreign, held⟩ := loaded.mapped page member
  obtain ⟨still, agree⟩ := grown.foreign _ aligned foreign
  refine ⟨translation, by rw [same, found], access, aligned, still, ?_⟩
  intro offset inside
  rw [agree _ (by omega) (by simp only [pageSize] at inside; omega), held offset inside]

/-- An edit that no translation can tell. -/
theorem silent (loaded : Loaded start machine root pages content)
    (silent : Silent machine machine' root) :
    pageMap machine' root = pageMap machine root ∧
      Loaded start machine' root pages content := by
  have samePages : pageMap machine' root = pageMap machine root :=
    pageMap_congr loaded.wellFormed silent.wellFormed silent.view_eq
  exact ⟨samePages, {
    wellFormed := silent.wellFormed
    kept := by
      rw [samePages]
      exact loaded.kept
    mapped := fun page member =>
      loaded.mapped_of_grown silent.toGrown member (congrFun samePages page)
    distinct := by
      rw [samePages]
      exact loaded.distinct }⟩

theorem enter (loaded : Loaded start machine root pages content) {phys addr : Nat}
    {translation : Translation} (access : translation.user = true)
    (frame : translation.frame = phys) (physAligned : phys % 4096 = 0)
    (foreign : Foreign machine root phys) (apart : Apart machine root pages phys)
    (cleared : ∀ offset < pageSize, machine.memory (phys + offset) = 0)
    (aligned : addr % pageSize = 0) (low : addr < userLimit)
    (replaced : Replaces machine machine' root addr (some translation)) :
    Loaded start machine' root (insert (addr / pageSize) pages)
      (content.fill addr pageSize 0) := by
  have newPages := pageMap_replaces loaded.wellFormed replaced low
  have fresh := replaced.foreign phys physAligned foreign
  exact {
    wellFormed := replaced.wellFormed
    kept := by
      intro page outside
      rw [Set.mem_insert_iff, not_or] at outside
      rw [newPages, Function.update_of_ne outside.1, loaded.kept page outside.2]
    mapped := by
      intro page member
      by_cases here : page = addr / pageSize
      · subst here
        refine ⟨translation, by rw [newPages, Function.update_self], access, ?_, ?_, ?_⟩
        · rw [frame]
          exact physAligned
        · rw [frame]
          exact fresh.1
        · intro offset inside
          rw [frame, fresh.2 _ (by omega) (by simp only [pageSize] at inside; omega),
            cleared offset inside, Nat.div_mul_cancel (Nat.dvd_of_mod_eq_zero aligned),
            ByteMemory.fill_of_inside (by omega) (by omega)]
      · obtain ⟨other, found, userPage, frameAligned, still, same⟩ :=
          loaded.mapped_of_grown replaced.toGrown (member.resolve_left here)
            (by rw [newPages, Function.update_of_ne here])
        refine ⟨other, found, userPage, frameAligned, still, ?_⟩
        intro offset inside
        have elsewhere : page * pageSize + offset < addr ∨
            addr + pageSize ≤ page * pageSize + offset := by
          simp only [pageSize] at *
          omega
        rw [same offset inside, ByteMemory.fill_of_outside elsewhere]
    distinct := by
      intro page member page' member' found found' read read' same
      rw [newPages] at read read'
      by_cases here : page = addr / pageSize
      · by_cases here' : page' = addr / pageSize
        · rw [here, here']
        · rw [Function.update_of_ne here'] at read'
          rw [here, Function.update_self] at read
          cases read
          exact absurd (same.symm.trans frame) (apart page' (member'.resolve_left here') _ read')
      · rw [Function.update_of_ne here] at read
        by_cases here' : page' = addr / pageSize
        · rw [here', Function.update_self] at read'
          cases read'
          exact absurd (same.trans frame) (apart page (member.resolve_left here) _ read)
        · rw [Function.update_of_ne here'] at read'
          exact loaded.distinct page (member.resolve_left here) page'
            (member'.resolve_left here') found found' read read' same }

/-- A fresh page is entered, holding zeros. -/
theorem mapPage (loaded : Loaded start machine root pages content) {phys addr : Nat}
    {pmm : Pmm} {flags : Entry} (taken : Pmm.Takes machine.pmm pmm phys)
    (access : user flags = true) (aligned : addr % pageSize = 0) (low : addr < userLimit)
    (done : mapPagePml4 { machine with memory := machine.memory.fill phys pageSize 0, pmm }
      root addr phys flags = (true, machine')) :
    Loaded start machine' root (insert (addr / pageSize) pages)
      (content.fill addr pageSize 0) := by
  have physAligned := taken.1.aligned
  have physSmall : phys < 2 ^ 52 := taken.1.lt.trans (by norm_num)
  obtain ⟨-, after, foreign, apart⟩ := loaded.take taken rfl
  rcases mapPagePml4_spec addr phys flags after.wellFormed with ⟨failed, -⟩ | ⟨-, replaced⟩
  · rw [done] at failed
    cases failed
  rw [done, pageView_leafEntry physSmall] at replaced
  have frame : (requested phys flags).frame = phys :=
    Nat.div_mul_cancel (Nat.dvd_of_mod_eq_zero physAligned)
  apply after.enter access frame physAligned foreign apart ?_ aligned low replaced
  intro offset inside
  exact ByteMemory.fill_of_inside (by omega) (by omega)

/-- The pages from `addr` on are entered, holding zeros. -/
theorem mapPages (loaded : Loaded start machine root pages content) {flags : Entry}
    (access : user flags = true) {count addr : Nat} (aligned : addr % pageSize = 0)
    (low : addr + count * pageSize ≤ userLimit)
    (done : Exec.mapPages root flags count addr machine = (true, machine')) :
    Loaded start machine' root
      (pages ∪ {page | addr ≤ page * pageSize ∧ page * pageSize < addr + count * pageSize})
      (content.fill addr (count * pageSize) 0) := by
  induction count generalizing addr machine pages content with
  | zero =>
      cases done
      have none : {page | addr ≤ page * pageSize ∧ page * pageSize < addr + 0 * pageSize} =
          ∅ := by
        ext page
        simp only [Set.mem_ofPred_eq, Set.mem_empty_iff_false, iff_false]
        omega
      rw [none, Set.union_empty, Nat.zero_mul, ByteMemory.fill_zero_length]
      exact loaded
  | succ count ih =>
  simp only [Exec.mapPages] at done
  rcases machine.pmm.allocPage_cases with failed | taken
  · simp [failed] at done
  have nonzero := taken.1.pos.ne'
  simp only [nonzero, ↓reduceIte] at done
  split at done
  · cases done
  next mapped =>
  have first := loaded.mapPage taken access aligned
    (by simp only [pageSize, userLimit] at *; omega) mapped
  have rest := @ih _ _ _ first (addr + pageSize)
    (by simp only [pageSize] at *; omega)
    (by simp only [pageSize, userLimit] at *; omega) done
  have samePages : insert (addr / pageSize) pages ∪
      {page | addr + pageSize ≤ page * pageSize ∧
        page * pageSize < addr + pageSize + count * pageSize} =
      pages ∪ {page | addr ≤ page * pageSize ∧
        page * pageSize < addr + (count + 1) * pageSize} := by
    ext page
    simp only [Set.mem_union, Set.mem_insert_iff, Set.mem_ofPred_eq, pageSize] at *
    constructor
    · rintro ((rfl | old) | later)
      · right
        omega
      · exact .inl old
      · right
        omega
    · rintro (old | inside)
      · exact .inl (.inr old)
      · by_cases here : page = addr / 4096
        · exact .inl (.inl here)
        · right
          omega
  rw [samePages, ByteMemory.fill_fill,
    show pageSize + count * pageSize = (count + 1) * pageSize by
      simp only [pageSize]; omega] at rest
  exact rest

/-- A part of a loaded page is stored through the page tables. -/
theorem writeUserChunk (loaded : Loaded start machine root pages content) {address : Nat}
    {bytes : List UInt8} (member : address / pageSize ∈ pages)
    (fits : address % pageSize + bytes.length ≤ pageSize) :
    ∃ machine', Exec.writeUserChunk machine root address bytes = some machine' ∧
      Loaded start machine' root pages (content.storeBytes address bytes) ∧
      pageMap machine' root = pageMap machine root := by
  obtain ⟨translation, found, access, aligned, foreign, same⟩ := loaded.mapped _ member
  have walked : hardwareWalk machine.memory root address = some translation := by
    rw [← hardwareWalk_page]
    exact found
  obtain ⟨pte, entry, used, frameEq⟩ := userEntry_of_user loaded.wellFormed walked access
  have target : physicalAddress pte address = translation.frame + address % pageSize := by
    rw [physicalAddress_eq, frameEq]
  set stored : Machine :=
    { machine with
      memory := machine.memory.storeBytes (translation.frame + address % pageSize) bytes }
  refine ⟨stored, by simp only [Exec.writeUserChunk, entry, used, Bool.not_true,
    Bool.false_eq_true, ↓reduceIte, target, stored], ?_⟩
  -- pages other than the frame keep their bytes, the tables among them
  have apart {page : Nat} (pageAligned : page % 4096 = 0)
      (different : page ≠ translation.frame) :
      ByteMemory.AgreeOn stored.memory machine.memory page (page + 4096) := by
    apply ByteMemory.agreeOn_storeBytes
    simp only [pageSize] at fits ⊢
    omega
  have kept : ∀ path table, path.length ≤ 3 →
      tableAt machine.memory root path = some table →
      ByteMemory.AgreeOn stored.memory machine.memory table (table + 4096) := by
    intro path table short reached
    apply apart (loaded.wellFormed.table_aligned short reached)
    rintro rfl
    exact foreign.2 path short reached
  have valid : WellFormed stored root :=
    loaded.wellFormed.elsewhere kept loaded.wellFormed.owned
  have samePages : pageMap stored root = pageMap machine root :=
    pageMap_congr loaded.wellFormed valid (leafView_elsewhere kept)
  have sameForeign {page : Nat} (outside : Foreign machine root page) :
      Foreign stored root page :=
    ⟨outside.1, fun path short reached =>
      outside.2 path short ((tableAt_elsewhere kept short).symm.trans reached)⟩
  refine ⟨?_, samePages⟩
  exact {
    wellFormed := valid
    kept := by
      rw [samePages]
      exact loaded.kept
    mapped := by
      intro page pageMember
      obtain ⟨other, found', access', aligned', foreign', same'⟩ :=
        loaded.mapped page pageMember
      refine ⟨other, by rw [samePages, found'], access', aligned', sameForeign foreign', ?_⟩
      intro offset inside
      by_cases here : page = address / pageSize
      · subst here
        rw [found] at found'
        cases found'
        have old := same offset inside
        simp only [stored, ByteMemory.storeBytes]
        by_cases written : address % pageSize ≤ offset ∧
            offset < address % pageSize + bytes.length
        · rw [if_pos (by omega), if_pos (by simp only [pageSize] at *; omega)]
          congr 1
          simp only [pageSize] at *
          omega
        · rw [if_neg (by omega), if_neg (by simp only [pageSize] at *; omega)]
          exact old
      · have different : other.frame ≠ translation.frame := fun equal =>
          here (loaded.distinct page pageMember _ member _ _ found' found equal)
        rw [apart aligned' different _ (by omega) (by simp only [pageSize] at inside; omega),
          same' offset inside, ByteMemory.storeBytes_of_outside]
        simp only [pageSize] at *
        omega
    distinct := by
      rw [samePages]
      exact loaded.distinct }

/-- Bytes are stored on loaded pages. -/
theorem elfWriteUser (loaded : Loaded start machine root pages content) {address : Nat}
    {bytes : List UInt8}
    (members : ∀ offset < bytes.length, (address + offset) / pageSize ∈ pages) :
    ∃ machine', Exec.elfWriteUser machine root address bytes = (true, machine') ∧
      Loaded start machine' root pages (content.storeBytes address bytes) ∧
      pageMap machine' root = pageMap machine root := by
  have step : ∀ copied chunk state, copied < bytes.length →
      chunk = chunkSize (address + copied) (bytes.length - copied) →
      (Loaded start state root pages (content.storeBytes address (bytes.take copied)) ∧
        pageMap state root = pageMap machine root) →
      ∃ state', Exec.writeUserChunk state root (address + copied)
          ((bytes.drop copied).take chunk) = some state' ∧
        Loaded start state' root pages
          (content.storeBytes address (bytes.take (copied + chunk))) ∧
        pageMap state' root = pageMap machine root := by
    rintro copied chunk state inside chunkEq ⟨before, samePages⟩
    have length : ((bytes.drop copied).take chunk).length = chunk := by
      simp only [List.length_take, List.length_drop, chunkEq, chunkSize]
      omega
    have fits : (address + copied) % pageSize + chunk ≤ pageSize := by
      simp only [chunkEq, chunkSize, pageSize]
      omega
    obtain ⟨state', written, after, keptPages⟩ := before.writeUserChunk (members copied inside)
      (by rw [length]; exact fits)
    refine ⟨state', written, ?_, keptPages.trans samePages⟩
    have prefixLength : (bytes.take copied).length = copied := by
      simp only [List.length_take]
      omega
    rw [List.take_add, ByteMemory.storeBytes_append, prefixLength]
    exact after
  obtain ⟨state, written, after, samePages⟩ := pageLoop_succeeds _ step (Nat.zero_le _)
    ⟨by simpa using loaded, rfl⟩
  rw [List.take_length] at after
  exact ⟨state, written, after, samePages⟩

section Segments

variable {read : ReadCallback} (exact : Exact read)

include exact

/-- The copy loop stores the file bytes that are left. -/
theorem copySegment (loaded : Loaded start machine root pages content) {phdr : Phdr}
    (members : ∀ offset < phdr.filesz, (phdr.vaddr + offset) / pageSize ∈ pages)
    {rounds copied : Nat} (inside : copied ≤ phdr.filesz)
    (enough : phdr.filesz ≤ copied + rounds)
    (done : Exec.copySegment read root phdr rounds copied machine = (true, machine')) :
    ∃ data, Loaded start machine' root pages
        (content.storeBytes (phdr.vaddr + copied) data) ∧
      ∀ file, Delivers read file →
        data = file.loadBytes (phdr.offset + copied) (phdr.filesz - copied) := by
  induction rounds generalizing copied machine content with
  | zero =>
      cases done
      refine ⟨[], by simpa using loaded, fun file _ => ?_⟩
      rw [show phdr.filesz - copied = 0 by omega]
      rfl
  | succ rounds ih =>
  simp only [Exec.copySegment] at done
  split at done
  case isFalse finished =>
    cases done
    refine ⟨[], by simpa using loaded, fun file _ => ?_⟩
    rw [show phdr.filesz - copied = 0 by omega]
    rfl
  case isTrue more =>
  split at done
  case h_1 => cases done
  case h_2 buffer delivered =>
  have length := exact _ _ _ delivered
  generalize chunkEq : min (phdr.filesz - copied) 512 = chunk at *
  obtain ⟨state, written, after, -⟩ :=
    @loaded.elfWriteUser _ _ _ _ _ (phdr.vaddr + copied) buffer (by
      intro offset below
      rw [Nat.add_assoc]
      exact members _ (by omega))
  rw [written] at done
  obtain ⟨data, final, delivers⟩ := ih after (by omega) (by omega) done
  refine ⟨buffer ++ data, ?_, fun file origin => ?_⟩
  · rw [ByteMemory.storeBytes_append, length, Nat.add_assoc]
    exact final
  · have head := origin _ _ _ delivered
    have tail := delivers file origin
    rw [length] at head
    have whole : phdr.filesz - copied =
        chunk + (phdr.filesz - (copied + chunk)) := by omega
    rw [head, tail, whole, ByteMemory.loadBytes_append, Nat.add_assoc phdr.offset]

theorem elfLoadSegment (loaded : Loaded start machine root pages content) {phdr : Phdr}
    (done : Exec.elfLoadSegment read root phdr machine = (true, machine')) :
    ∃ data, Loaded start machine' root (pages ∪ phdr.pages) (phdr.place content data) ∧
      ∀ file, Delivers read file → data = file.loadBytes phdr.offset phdr.filesz := by
  simp only [Exec.elfLoadSegment] at done
  split at done
  case isTrue empty =>
    simp only [Prod.mk.injEq, decide_eq_true_eq] at done
    obtain ⟨noFile, rfl⟩ := done
    have none : phdr.pages = ∅ := by
      ext page
      simp [Phdr.pages, empty]
    refine ⟨[], ?_, fun file _ => by rw [noFile]; rfl⟩
    rw [none, Set.union_empty, Phdr.place, if_pos empty]
    exact loaded
  case isFalse nonempty =>
  split at done
  case isTrue => cases done
  case isFalse bounds =>
  split at done
  case isTrue => cases done
  case isFalse =>
  split at done
  case h_1 => cases done
  case h_2 state mapped =>
  have access : user phdr.mapFlags = true := by
    simp [Phdr.mapFlags, user]
  have pageCount := phdr.pageCount_mul
  have ordered := Nat.add_sub_of_le phdr.pageStart_le_pageEnd
  have cleared := loaded.mapPages access
    (by simp only [Phdr.pageStart, pageSize]; omega)
    (by
      rw [pageCount, ordered]
      simp only [Phdr.pageEnd, pageSize, userLimit] at *
      omega) mapped
  rw [pageCount, ordered] at cleared
  have samePages : {page | phdr.pageStart ≤ page * pageSize ∧ page * pageSize < phdr.pageEnd} =
      phdr.pages := by
    ext page
    simp [Phdr.pages, nonempty]
  rw [samePages] at cleared
  have members : ∀ offset < phdr.filesz,
      (phdr.vaddr + offset) / pageSize ∈ pages ∪ phdr.pages := by
    intro offset below
    right
    simp only [Phdr.pages, Phdr.pageStart, Phdr.pageEnd, Set.mem_ofPred_eq, pageSize] at *
    omega
  obtain ⟨data, final, delivers⟩ :=
    cleared.copySegment exact members (Nat.zero_le _) (by omega) done
  refine ⟨data, ?_, fun file origin => by simpa using delivers file origin⟩
  rw [Phdr.place, if_neg nonempty]
  exact final

/-- The segments of a file are placed in the image one after the other. -/
theorem loadSegments (loaded : Loaded start machine root pages content) {size entry : Nat}
    {phdrs : List Phdr} {before executable : Bool} {flags : Bool × Bool}
    (done : Exec.loadSegments read size root entry phdrs before executable machine =
      (some flags, machine')) :
    ∃ content', Loaded start machine' root
        (pages ∪ segmentPages (phdrs.filter Phdr.loadable)) content' ∧
      ∀ file, Delivers read file →
        content' = image file content (phdrs.filter Phdr.loadable) := by
  induction phdrs generalizing machine pages content before executable with
  | nil =>
      cases done
      have none : segmentPages (([] : List Phdr).filter Phdr.loadable) = ∅ := by
        ext page
        simp [segmentPages]
      refine ⟨content, ?_, fun file _ => rfl⟩
      rw [none, Set.union_empty]
      exact loaded
  | cons phdr phdrs ih =>
  simp only [Exec.loadSegments] at done
  cases kind : phdr.loadable with
  | false =>
      simp only [kind, Bool.not_false, ↓reduceIte] at done
      rw [List.filter_cons_of_neg (by rw [kind]; exact Bool.false_ne_true)]
      exact ih loaded done
  | true =>
  simp only [kind, Bool.not_true, Bool.false_eq_true, ↓reduceIte] at done
  split at done
  case isTrue => cases done
  case isFalse =>
  split at done
  case h_1 => cases done
  case h_2 state placed =>
  rw [List.filter_cons_of_pos kind]
  obtain ⟨data, first, origin⟩ := loaded.elfLoadSegment exact placed
  obtain ⟨content', final, rest⟩ := ih first done
  refine ⟨content', ?_, fun file delivers => ?_⟩
  · have samePages : pages ∪ phdr.pages ∪
        segmentPages (phdrs.filter Phdr.loadable) =
        pages ∪ segmentPages (phdr :: phdrs.filter Phdr.loadable) := by
      ext page
      simp only [segmentPages, Set.mem_union, Set.mem_ofPred_eq, List.mem_cons,
        exists_eq_or_imp, or_assoc]
    rw [← samePages]
    exact final
  · rw [rest file delivers, origin file delivers]
    rfl

end Segments

end Loaded

/-! ## Loading while there is memory -/

section Plenty

variable {start machine machine' : Machine} {root spare : Nat}

/-- Five pages are enough for each page of a segment. -/
theorem mapPages_succeeds (nonzero : root ≠ 0) {count : Nat}
    (plenty : machine.pmm.Plenty (spare + count * 5)) (flags : Entry) (addr : Nat) :
    ∃ machine', mapPages root flags count addr machine = (true, machine') ∧
      machine'.pmm.Plenty spare := by
  induction count generalizing machine addr with
  | zero => exact ⟨machine, rfl, by simpa using plenty⟩
  | succ count ih =>
  rw [show spare + (count + 1) * 5 = spare + count * 5 + 4 + 1 by omega] at plenty
  obtain ⟨taken, rest⟩ := plenty.allocPage
  obtain ⟨mapped, done, left⟩ := @mapPagePml4_succeeds
    { machine with
      memory := machine.memory.fill machine.pmm.allocPage.1 pageSize 0
      pmm := machine.pmm.allocPage.2 } _ root nonzero rest addr machine.pmm.allocPage.1 flags
  obtain ⟨final, run, enough⟩ := ih left (addr + pageSize)
  refine ⟨final, ?_, enough⟩
  simp only [mapPages, taken.1.pos.ne', ↓reduceIte, done, run]

theorem writeUserChunk_pmm {address : Nat} {bytes : List UInt8}
    (done : writeUserChunk machine root address bytes = some machine') :
    machine'.pmm = machine.pmm := by
  simp only [writeUserChunk] at done
  split at done
  · cases done
  · split at done
    · cases done
    · cases done
      rfl

theorem elfWriteUser_pmm {address : Nat} {bytes : List UInt8}
    (done : elfWriteUser machine root address bytes = (true, machine')) :
    machine'.pmm = machine.pmm :=
  pageLoop_invariant (fun _ state => state.pmm = machine.pmm)
    (fun _ _ _ _ _ _ before handled => (writeUserChunk_pmm handled).trans before)
    (Nat.zero_le _) rfl done

variable {pages : Set Nat} {content : ByteMemory} {read : ReadCallback} (exact : Exact read)
  {phdr : Phdr}

include exact

theorem copySegment_succeeds (loaded : Loaded start machine root pages content)
    (members : ∀ offset < phdr.filesz, (phdr.vaddr + offset) / pageSize ∈ pages)
    (readable : ∀ offset count, offset + count ≤ phdr.offset + phdr.filesz →
      (read offset count).isSome = true)
    (rounds copied : Nat) :
    ∃ machine', copySegment read root phdr rounds copied machine = (true, machine') ∧
      machine'.pmm = machine.pmm := by
  induction rounds generalizing copied machine content with
  | zero => exact ⟨machine, rfl, rfl⟩
  | succ rounds ih =>
  simp only [copySegment]
  split
  case isFalse => exact ⟨machine, rfl, rfl⟩
  case isTrue more =>
  obtain ⟨buffer, delivered⟩ := Option.isSome_iff_exists.mp
    (readable (phdr.offset + copied) (min (phdr.filesz - copied) 512) (by omega))
  have length := exact _ _ _ delivered
  obtain ⟨state, written, after, -⟩ :=
    @loaded.elfWriteUser _ _ _ _ _ (phdr.vaddr + copied) buffer (by
      intro offset below
      rw [Nat.add_assoc]
      exact members _ (by omega))
  obtain ⟨final, run, same⟩ := ih after (copied + min (phdr.filesz - copied) 512)
  refine ⟨final, ?_, same.trans (elfWriteUser_pmm written)⟩
  simp only [delivered, written, run]

/-- The bounds that `elf_load_segment` checks. -/
def Phdr.WellPlaced (phdr : Phdr) : Prop :=
  phdr.memsz ≠ 0 ∧ pageSize ≤ phdr.vaddr ∧ phdr.filesz ≤ phdr.memsz ∧
    phdr.vaddr + phdr.memsz ≤ userLimit

theorem elfLoadSegment_succeeds (nonzero : root ≠ 0)
    (loaded : Loaded start machine root pages content) (placed : phdr.WellPlaced)
    (readable : ∀ offset count, offset + count ≤ phdr.offset + phdr.filesz →
      (read offset count).isSome = true)
    (plenty : machine.pmm.Plenty
      (spare + (phdr.pageEnd - phdr.pageStart) / pageSize * 5)) :
    ∃ machine', elfLoadSegment read root phdr machine = (true, machine') ∧
      machine'.pmm.Plenty spare := by
  obtain ⟨nonempty, above, fits, below⟩ := placed
  obtain ⟨state, mapped, left⟩ :=
    mapPages_succeeds nonzero plenty phdr.mapFlags phdr.pageStart
  have access : user phdr.mapFlags = true := by
    simp [Phdr.mapFlags, user]
  have cleared := loaded.mapPages access
    (by simp only [Phdr.pageStart, pageSize]; omega)
    (by
      rw [phdr.pageCount_mul, Nat.add_sub_of_le phdr.pageStart_le_pageEnd]
      simp only [Phdr.pageEnd, pageSize, userLimit] at *
      omega) mapped
  obtain ⟨final, copied, same⟩ := copySegment_succeeds exact cleared
    (by
      intro offset inside
      right
      rw [phdr.pageCount_mul, Nat.add_sub_of_le phdr.pageStart_le_pageEnd]
      simp only [Phdr.pageStart, Phdr.pageEnd, Set.mem_ofPred_eq, pageSize] at *
      omega) readable phdr.filesz 0
  refine ⟨final, ?_, same ▸ left⟩
  simp only [elfLoadSegment, nonempty, ↓reduceIte]
  rw [if_neg (by omega), if_neg (by simp only [Phdr.pageEnd, pageSize]; omega), mapped]
  exact copied

end Plenty

/-- What an edit of a task's address space touches at physical addresses: the tables below
the upper half, and the pages that it takes from the allocator, also those that it returns. -/
def Touched (before after : Machine) (root : Nat) (returned : List Nat) (page : Nat) : Prop :=
  (∃ path, path.length ≤ 3 ∧ (∀ index ∈ path.head?, index.val < 256) ∧
      tableAt before.memory root path = some page) ∨
    before.pmm.Available page ∧ (page ∈ returned ∨ ¬ after.pmm.Available page)

theorem touched_after_boot {memory : ByteMemory} {machine after : Machine} {root page : Nat}
    {returned : List Nat}
    (created : newAddressSpace (bootMachine memory) 0 = some (root, machine))
    (touched : Touched machine after root returned page) :
    InPlace machine.memory root page ∧ page < 0x118000 := by
  have kernel := kernelSpace_bootMachine memory
  obtain ⟨-, inherits⟩ := newAddressSpace_inherits kernel.toWellFormed created
  have bounds : page % 4096 = 0 ∧ page < 0x118000 := by
    rcases touched with ⟨path, short, lower, reached⟩ | ⟨free, -⟩
    · exact ⟨inherits.wellFormed.table_aligned short reached,
        table_lt_after_boot (owns_after_boot created) inherits.wellFormed short lower reached⟩
    · have before := inherits.available page free
      exact ⟨before.aligned, bootPmm_available_lt before⟩
  exact ⟨inPlace_after_boot created bounds.1 (by omega), bounds.2⟩

end Charis.Exec
