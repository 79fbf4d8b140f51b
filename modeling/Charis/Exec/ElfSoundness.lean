import Charis.Exec.ElfImage

/-!
# What loading an executable does to a task

Two consequences of the order in which the loader works.  It takes no notice of
what is mapped already, so that a segment can replace mappings of the kernel; and
it clears whole pages for every segment, so that a segment can wipe out the end of
an earlier one that shares a page with it.
-/

namespace Charis.Exec

open Charis.Lib
open Charis.Memory
open Charis.Memory.Entry
open Charis.Fs

/-- Reading all of the requested bytes from a node. -/
def nodeRead (read : ReadCallback) : ReadCallback := fun offset count =>
  (readLoop read offset count count []).filter fun bytes => bytes.length = count

/-- The segments of the executable that a node holds, in the order of the program
headers. -/
def segments (node : VfsNode) : List Phdr :=
  match node.read with
  | none => []
  | some read =>
      ((readEhdr (nodeRead read) node.size).bind (readPhdrs (nodeRead read))).elim []
        (List.filter Phdr.loadable)

section Reading

variable {read : ReadCallback} {file : ByteMemory}

theorem nodeRead_exact (read : ReadCallback) : Exact (nodeRead read) := by
  intro offset count bytes delivered
  have short := (Option.filter_eq_some_iff.mp delivered).2
  simpa using short

theorem readLoop_delivers (delivers : Delivers read file) {offset count rounds : Nat}
    {total bytes : List UInt8} (before : total = file.loadBytes offset total.length)
    (done : readLoop read offset count rounds total = some bytes) :
    bytes = file.loadBytes offset bytes.length := by
  induction rounds generalizing total with
  | zero =>
      cases done
      exact before
  | succ rounds ih =>
  simp only [readLoop] at done
  split at done
  case isFalse =>
    cases done
    exact before
  case isTrue =>
  split at done
  case h_1 => cases done
  case h_2 part delivered =>
  split at done
  case isTrue => cases done
  case isFalse =>
    apply ih _ done
    rw [List.length_append, ByteMemory.loadBytes_append, ← before,
      ← delivers _ _ _ delivered]

theorem nodeRead_delivers (delivers : Delivers read file) : Delivers (nodeRead read) file := by
  intro offset count bytes delivered
  exact readLoop_delivers delivers rfl (Option.filter_eq_some_iff.mp delivered).1

/-- A descriptor that was just opened reads from its node. -/
theorem readExactly_of_fdAlloc {current : Option FdTable} {node : VfsNode} {flags fd : Nat}
    {table : FdTable} (opened : fdAlloc current node flags = some (fd, table))
    (readable : node.read = some read) :
    readExactly (some table) fd = nodeRead read := by
  funext offset count
  simp [readExactly, fdReadAll, nodeRead, fdGet_of_fdAlloc opened, readable]

end Reading

section Accepted

variable {finddir : String → Option VfsNode} {system system' : System} {path : String}
  {root entry : Nat} {node : VfsNode}

theorem elfLoad_cases (found : vfsResolve finddir path = some node)
    (accepted : elfLoad finddir system (some path) root = (some entry, system')) :
    ∃ read phdrs flags, node.read = some read ∧
      segments node = phdrs.filter Phdr.loadable ∧
      loadSegments (nodeRead read) node.size root entry phdrs false false system.machine =
        (some flags, system'.machine) := by
  simp only [elfLoad, found] at accepted
  split at accepted
  case isTrue => cases accepted
  case isFalse =>
  split at accepted
  case isTrue => cases accepted
  case isFalse readable =>
  obtain ⟨read, reads⟩ : ∃ read, node.read = some read := by
    cases callback : node.read with
    | none => simp [callback] at readable
    | some read => exact ⟨read, rfl⟩
  split at accepted
  case h_1 => cases accepted
  case h_2 fd table opened =>
  simp only [loadFrom, readExactly_of_fdAlloc opened reads, Prod.mk.injEq] at accepted
  obtain ⟨accepted, rfl⟩ := accepted
  cases header : readEhdr (nodeRead read) node.size with
  | none => simp [header] at accepted
  | some ehdr =>
  simp only [header] at accepted ⊢
  split at accepted
  case isTrue => cases accepted
  case isFalse room =>
  rw [if_neg room]
  cases table : readPhdrs (nodeRead read) ehdr with
  | none => simp [table] at accepted
  | some phdrs =>
  simp only [table] at accepted ⊢
  split at accepted
  case h_2 => cases accepted
  case h_1 machine done =>
  cases accepted
  refine ⟨read, phdrs, (true, true), reads, ?_, done⟩
  simp [segments, reads, header, table]

/-- A file is accepted when its headers and segments are. -/
theorem elfLoad_of_loadSegments (nonzero : root ≠ 0)
    (found : vfsResolve finddir path = some node) (isFile : node.flags &&& vfsFile ≠ 0)
    {read : ReadCallback} (reads : node.read = some read) {fd : Nat} {fds : FdTable}
    (opened : fdAlloc system.current node 0 = some (fd, fds)) {ehdr : Ehdr}
    (header : readEhdr (nodeRead read) node.size = some ehdr)
    (room : system.kmalloc (ehdr.phnum * phdrSize) = true) {phdrs : List Phdr}
    (table : readPhdrs (nodeRead read) ehdr = some phdrs) {machine : Machine}
    (done : loadSegments (nodeRead read) node.size root ehdr.entry phdrs false false
      system.machine = (some (true, true), machine)) :
    elfLoad finddir system (some path) root =
      (some ehdr.entry, { system with machine, current := fdClose (some fds) fd }) := by
  have loaded : loadFrom { system with current := some fds } fd node.size root =
      (some ehdr.entry, machine) := by
    simp only [loadFrom, readExactly_of_fdAlloc opened reads, header, room, table, done,
      Bool.not_true, Bool.false_eq_true, ↓reduceIte]
  simp [elfLoad, nonzero, found, isFile, reads, opened, loaded]

/-- The state of the loader after an accepted file. -/
theorem loaded_of_elfLoad (valid : WellFormed system.machine root)
    (found : vfsResolve finddir path = some node)
    (accepted : elfLoad finddir system (some path) root = (some entry, system'))
    (content : ByteMemory) :
    ∃ content', Loaded system.machine system'.machine root (segmentPages (segments node))
        content' ∧
      ∀ file, (∀ read, node.read = some read → Delivers read file) →
        content' = image file content (segments node) := by
  obtain ⟨read, phdrs, flags, reads, same, done⟩ := elfLoad_cases found accepted
  obtain ⟨content', loaded, origin⟩ :=
    (Loaded.refl valid content).loadSegments (nodeRead_exact read) done
  rw [Set.empty_union, ← same] at loaded
  refine ⟨content', loaded, fun file delivers => ?_⟩
  rw [same]
  exact origin file (nodeRead_delivers (delivers read reads))

theorem exists_elfLoadSegment {read : ReadCallback} {size : Nat} {phdrs : List Phdr}
    {loaded executable : Bool} {flags : Bool × Bool} {machine machine' : Machine}
    (done : loadSegments read size root entry phdrs loaded executable machine =
      (some flags, machine')) :
    ∀ phdr ∈ phdrs.filter Phdr.loadable,
      ∃ before after, elfLoadSegment read root phdr before = (true, after) := by
  induction phdrs generalizing machine loaded executable with
  | nil => simp
  | cons phdr phdrs ih =>
  simp only [loadSegments] at done
  cases kind : phdr.loadable with
  | false =>
      simp only [kind, Bool.not_false, ↓reduceIte] at done
      rw [List.filter_cons_of_neg (by rw [kind]; exact Bool.false_ne_true)]
      exact ih done
  | true =>
  simp only [kind, Bool.not_true, Bool.false_eq_true, ↓reduceIte] at done
  split at done
  case isTrue => cases done
  case isFalse =>
  split at done
  case h_1 => cases done
  case h_2 state placed =>
  rw [List.filter_cons_of_pos kind, List.forall_mem_cons]
  exact ⟨⟨machine, state, placed⟩, ih done⟩

/-- The file bytes of a segment fit in its memory. -/
theorem filesz_le_memsz (found : vfsResolve finddir path = some node)
    (accepted : elfLoad finddir system (some path) root = (some entry, system')) :
    ∀ phdr ∈ segments node, phdr.filesz ≤ phdr.memsz := by
  obtain ⟨read, phdrs, flags, -, same, done⟩ := elfLoad_cases found accepted
  rw [same]
  intro phdr member
  obtain ⟨before, after, placed⟩ := exists_elfLoadSegment done phdr member
  simp only [elfLoadSegment] at placed
  split at placed
  · next empty =>
      have none : phdr.filesz = 0 := by simpa using congrArg Prod.fst placed
      omega
  · split at placed
    · cases placed
    · omega

end Accepted

/-! ## Images -/

/-- The addresses of a segment. -/
def Phdr.range (phdr : Phdr) : Set Nat :=
  {virt | phdr.vaddr ≤ virt ∧ virt < phdr.vaddr + phdr.memsz}

/-- Addresses on the pages that a segment is given. -/
def Phdr.Covers (phdr : Phdr) (virt : Nat) : Prop :=
  phdr.memsz ≠ 0 ∧ phdr.pageStart ≤ virt ∧ virt < phdr.pageEnd

/-- What the memory of a segment is to hold: its file bytes and then zeros. -/
def Prescribed (file : ByteMemory) (phdr : Phdr) (read : Nat → Option UInt8) : Prop :=
  (∀ index < phdr.filesz, read (phdr.vaddr + index) = some (file (phdr.offset + index))) ∧
    ∀ index, phdr.filesz ≤ index → index < phdr.memsz → read (phdr.vaddr + index) = some 0

/-- A segment loaded later leaves the file bytes of an earlier one alone, or they are
zero. -/
def Spared (file : ByteMemory) (early late : Phdr) : Prop :=
  ∀ index < early.filesz, late.Covers (early.vaddr + index) → file (early.offset + index) = 0

section Images

variable {file content : ByteMemory} {phdr : Phdr} {virt : Nat}

theorem Phdr.covers_iff : phdr.Covers virt ↔ virt / pageSize ∈ phdr.pages := by
  simp only [Phdr.Covers, Phdr.pages, Phdr.pageStart, Phdr.pageEnd, pageSize,
    Set.mem_ofPred_eq]
  omega

/-- The range of a segment lies on its pages. -/
theorem Phdr.covers_of_range (member : virt ∈ phdr.range) : phdr.Covers virt := by
  simp only [Phdr.range, Phdr.Covers, Phdr.pageStart, Phdr.pageEnd, pageSize,
    Set.mem_ofPred_eq] at *
  omega

open Classical in
/-- Outside its range a segment clears its pages. -/
theorem Phdr.place_of_outside (fits : phdr.filesz ≤ phdr.memsz)
    (outside : virt ∉ phdr.range) :
    phdr.place content (file.loadBytes phdr.offset phdr.filesz) virt =
      if phdr.Covers virt then 0 else content virt := by
  have apart : virt < phdr.vaddr ∨
      phdr.vaddr + (file.loadBytes phdr.offset phdr.filesz).length ≤ virt := by
    simp only [Phdr.range, Set.mem_ofPred_eq, ByteMemory.length_loadBytes] at outside ⊢
    omega
  have ordered := phdr.pageStart_le_pageEnd
  by_cases empty : phdr.memsz = 0
  · simp [Phdr.place, Phdr.Covers, empty]
  · rw [Phdr.place, if_neg empty, ByteMemory.storeBytes_of_outside apart]
    by_cases covered : phdr.Covers virt
    · rw [if_pos covered]
      exact ByteMemory.fill_of_inside covered.2.1 (by have := covered.2.2; omega)
    · rw [if_neg covered]
      apply ByteMemory.fill_of_outside
      simp only [Phdr.Covers] at covered
      omega

theorem Phdr.prescribed_place (fits : phdr.filesz ≤ phdr.memsz) :
    Prescribed file phdr fun virt =>
      some (phdr.place content (file.loadBytes phdr.offset phdr.filesz) virt) := by
  constructor
  · intro index below
    dsimp only
    rw [Phdr.place, if_neg (by omega), ByteMemory.storeBytes_of_inside (by omega)
      (by rw [ByteMemory.length_loadBytes]; omega),
      show phdr.vaddr + index - phdr.vaddr = index by omega, ByteMemory.getD_loadBytes below]
  · intro index above below
    have covered := @Phdr.covers_of_range phdr (phdr.vaddr + index)
      ⟨by omega, by omega⟩
    dsimp only
    rw [Phdr.place, if_neg covered.1, ByteMemory.storeBytes_of_outside
      (by rw [ByteMemory.length_loadBytes]; omega),
      ByteMemory.fill_of_inside covered.2.1 (by have := covered.2.2; omega)]

open Classical in
/-- What later segments make of a byte that is outside their ranges. -/
theorem image_of_outside {later : List Phdr}
    (fits : ∀ phdr ∈ later, phdr.filesz ≤ phdr.memsz)
    (outside : ∀ phdr ∈ later, virt ∉ phdr.range) :
    image file content later virt =
      if ∃ phdr ∈ later, phdr.Covers virt then 0 else content virt := by
  induction later generalizing content with
  | nil => simp [image]
  | cons phdr later ih =>
  rw [List.forall_mem_cons] at fits outside
  rw [image, List.foldl_cons]
  refine (ih fits.2 outside.2).trans ?_
  rw [Phdr.place_of_outside fits.1 outside.1]
  by_cases later : ∃ phdr ∈ later, phdr.Covers virt
  · simp [later]
  · simp [later]

/-- The image is as prescribed exactly when every segment is spared by the later
ones. -/
theorem prescribed_image_iff {segments : List Phdr}
    (fits : ∀ phdr ∈ segments, phdr.filesz ≤ phdr.memsz)
    (disjoint : segments.Pairwise fun early late => Disjoint early.range late.range) :
    (∀ phdr ∈ segments,
        Prescribed file phdr fun virt => some (image file content segments virt)) ↔
      segments.Pairwise (Spared file) := by
  induction segments generalizing content with
  | nil => simp
  | cons phdr later ih =>
  rw [List.pairwise_cons] at disjoint
  rw [List.forall_mem_cons] at fits
  rw [List.pairwise_cons, List.forall_mem_cons]
  refine and_congr ?_ (ih fits.2 disjoint.2)
  obtain ⟨bytes, zeros⟩ := @Phdr.prescribed_place file content phdr fits.1
  have after {index : Nat} (below : index < phdr.memsz) :=
    @image_of_outside file
      (phdr.place content (file.loadBytes phdr.offset phdr.filesz)) (phdr.vaddr + index)
      later fits.2 fun late member inside =>
        Set.disjoint_left.mp (disjoint.1 late member) ⟨by omega, by omega⟩ inside
  have unfolded : image file content (phdr :: later) =
      image file (phdr.place content (file.loadBytes phdr.offset phdr.filesz)) later := rfl
  rw [unfolded]
  constructor
  · rintro ⟨kept, -⟩ late member index below covered
    have same := kept index below
    dsimp only at same
    rw [after (below.trans_le fits.1), if_pos ⟨late, member, covered⟩] at same
    exact (Option.some.inj same).symm
  intro spared
  refine ⟨fun index below => ?_, fun index above below => ?_⟩
  · dsimp only
    rw [after (below.trans_le fits.1)]
    split
    · next covered =>
        obtain ⟨late, member, covered⟩ := covered
        rw [spared late member index below covered]
    · exact bytes index below
  · dsimp only
    rw [after below]
    split
    · rfl
    · exact zeros index above below

end Images

/-- The byte that ring 3 reads at a virtual address. -/
def userByte (machine : Machine) (root virt : Nat) : Option UInt8 :=
  (ringThree machine.memory root virt false).map machine.memory

section Memory

variable {start machine : Machine} {root : Nat} {content : ByteMemory}
  {segments : List Phdr}

theorem mem_segmentPages {phdr : Phdr} {virt : Nat} (member : phdr ∈ segments)
    (covered : phdr.Covers virt) : virt / pageSize ∈ segmentPages segments :=
  ⟨phdr, member, Phdr.covers_iff.mp covered⟩

/-- After loading, supervisor translations are as before exactly when no segment
covers one. -/
theorem Loaded.supervisor_kept_iff
    (loaded : Loaded start machine root (segmentPages segments) content) :
    (∀ virt translation, hardwareWalk start.memory root virt = some translation →
        translation.user = false →
        hardwareWalk machine.memory root virt = some translation) ↔
      ∀ phdr ∈ segments, ∀ virt translation, phdr.Covers virt →
        hardwareWalk start.memory root virt = some translation →
        translation.user = true := by
  constructor
  · intro kept phdr member virt translation covered found
    by_contra supervisor
    rw [Bool.not_eq_true] at supervisor
    obtain ⟨translation', found', access, -⟩ :=
      loaded.mapped _ (mem_segmentPages member covered)
    rw [pageMap, hardwareWalk_page, kept virt translation found supervisor] at found'
    cases found'
    rw [supervisor] at access
    cases access
  · intro clear virt translation found supervisor
    have outside : virt / pageSize ∉ segmentPages segments := by
      rintro ⟨phdr, member, inside⟩
      rw [clear phdr member virt translation (Phdr.covers_iff.mpr inside) found] at supervisor
      cases supervisor
    have same := loaded.kept _ outside
    rwa [pageMap, pageMap, hardwareWalk_page, hardwareWalk_page, found] at same

/-- What ring 3 finds in a segment is what the image holds. -/
theorem Loaded.prescribed_iff
    (loaded : Loaded start machine root (segmentPages segments) content) {phdr : Phdr}
    (member : phdr ∈ segments) (fits : phdr.filesz ≤ phdr.memsz) (file : ByteMemory) :
    Prescribed file phdr (userByte machine root) ↔
      Prescribed file phdr fun virt => some (content virt) := by
  have same {index : Nat} (below : index < phdr.memsz) :
      userByte machine root (phdr.vaddr + index) = some (content (phdr.vaddr + index)) :=
    loaded.ringThree_read
      (mem_segmentPages member (Phdr.covers_of_range ⟨by omega, by omega⟩))
  constructor
  · rintro ⟨bytes, zeros⟩
    exact ⟨fun index below => (same (by omega)).symm.trans (bytes index below),
      fun index above below => (same below).symm.trans (zeros index above below)⟩
  · rintro ⟨bytes, zeros⟩
    exact ⟨fun index below => (same (by omega)).trans (bytes index below),
      fun index above below => (same below).trans (zeros index above below)⟩

end Memory

section Soundness

variable {boot machine : Machine} {source root entry : Nat} {events : List VmmEvent}
  {finddir : String → Option VfsNode} {system system' : System} {path : String}
  {node : VfsNode}

/-- An accepted executable leaves the supervisor translations of a task's address
space alone exactly when none of its segments covers one. -/
theorem elf_load_keeps_supervisor_iff (kernel : KernelSpace boot (sourceRoot boot source))
    (created : newAddressSpace boot source = some (root, machine))
    (run : Run (VmmStep root) machine events system.machine)
    (found : vfsResolve finddir path = some node)
    (accepted : elfLoad finddir system (some path) root = (some entry, system')) :
    (∀ virt translation, hardwareWalk system.machine.memory root virt = some translation →
        translation.user = false →
        hardwareWalk system'.machine.memory root virt = some translation) ↔
      ∀ phdr ∈ segments node, ∀ virt translation, phdr.Covers virt →
        hardwareWalk system.machine.memory root virt = some translation →
        translation.user = true := by
  have valid := (wellFormed_of_run kernel created run).2
  obtain ⟨content, loaded, -⟩ := loaded_of_elfLoad valid found accepted fun _ => 0
  exact loaded.supervisor_kept_iff

/-- The memory of an accepted executable whose segments do not overlap is as
prescribed exactly when no segment clears file bytes of an earlier one.  The identity
pages of what the loader touches are in place and no segment covers them, so that they
stay there. -/
theorem elf_load_image_iff (kernel : KernelSpace boot (sourceRoot boot source))
    (created : newAddressSpace boot source = some (root, machine))
    (run : Run (VmmStep root) machine events system.machine)
    (found : vfsResolve finddir path = some node) {file : ByteMemory}
    (delivers : ∀ read, node.read = some read → Delivers read file)
    (disjoint : (segments node).Pairwise fun early late => Disjoint early.range late.range)
    (accepted : elfLoad finddir system (some path) root = (some entry, system'))
    (intact : ∀ page, Touched system.machine system'.machine root [] page →
      InPlace system.machine.memory root page ∧
        page / pageSize ∉ segmentPages (segments node)) :
    ((∀ phdr ∈ segments node, Prescribed file phdr (userByte system'.machine root)) ↔
      (segments node).Pairwise (Spared file)) ∧
    ∀ page, Touched system.machine system'.machine root [] page →
      InPlace system'.machine.memory root page := by
  have valid := (wellFormed_of_run kernel created run).2
  have fits := filesz_le_memsz found accepted
  obtain ⟨content, loaded, origin⟩ := loaded_of_elfLoad valid found accepted fun _ => 0
  rw [← @prescribed_image_iff file (fun _ => 0) _ fits disjoint, ← origin file delivers]
  constructor
  · exact forall₂_congr fun phdr member =>
      loaded.prescribed_iff member (fits phdr member) file
  · intro page touched
    obtain ⟨inPlace, apart⟩ := intact page touched
    exact inPlace.of_pageMap (loaded.kept _ apart)

end Soundness

/-! ## An executable with two segments on one page -/

/-- The bytes of a little-endian field. -/
def fieldBytes (width value : Nat) : List UInt8 :=
  (List.range width).map (ByteMemory.leByte value)

/-- A program header with file offset zero. -/
def phdrBytes (flags vaddr filesz memsz : Nat) : List UInt8 :=
  fieldBytes 4 1 ++ fieldBytes 4 flags ++ fieldBytes 8 0 ++ fieldBytes 8 vaddr ++
    fieldBytes 8 0 ++ fieldBytes 8 filesz ++ fieldBytes 8 memsz ++ fieldBytes 8 1

/-- An executable with one byte of code at `vaddr`, the first byte of the file, and
one byte of data without file bytes right after it. -/
def twoSegments (vaddr : Nat) : List UInt8 :=
  [0x7F, 0x45, 0x4C, 0x46, 2, 1, 1] ++ List.replicate 9 0 ++ fieldBytes 2 2 ++
    fieldBytes 2 62 ++ fieldBytes 4 1 ++ fieldBytes 8 vaddr ++ fieldBytes 8 64 ++
    fieldBytes 8 0 ++ fieldBytes 4 0 ++ fieldBytes 2 64 ++ fieldBytes 2 56 ++
    fieldBytes 2 2 ++ List.replicate 6 0 ++ phdrBytes 5 vaddr 1 1 ++
    phdrBytes 6 (vaddr + 1) 0 1

/-- A callback that delivers the bytes of a list. -/
def readList (bytes : List UInt8) : ReadCallback := fun offset count =>
  some ((bytes.drop offset).take count)

def twoSegmentsNode (vaddr : Nat) : VfsNode where
  flags := 1
  size := 176
  read := some (readList (twoSegments vaddr))

/-- The first segment of the executable. -/
def codeSegment (vaddr : Nat) : Phdr where
  type := 1
  flags := 5
  offset := 0
  vaddr := vaddr
  filesz := 1
  memsz := 1
  align := 1

/-- The second segment of the executable. -/
def dataSegment (vaddr : Nat) : Phdr where
  type := 1
  flags := 6
  offset := 0
  vaddr := vaddr + 1
  filesz := 0
  memsz := 1
  align := 1

/-- A task that has only its standard streams open, and a heap with room. -/
def idleSystem (machine : Machine) : System where
  machine := machine
  current := some fun _ => ⟨none, 0, 0⟩
  kmalloc := fun _ => true

theorem loadBytes_list {bytes : List UInt8} {offset count : Nat}
    (inside : offset + count ≤ bytes.length) :
    ByteMemory.loadBytes (fun index => bytes.getD index 0) offset count =
      (bytes.drop offset).take count := by
  induction count generalizing offset with
  | zero => simp [ByteMemory.loadBytes]
  | succ count ih =>
      have below : offset < bytes.length := by omega
      rw [ByteMemory.loadBytes, ih (by omega), List.drop_eq_getElem_cons below,
        List.take_succ_cons, List.getD_eq_getElem _ _ below]

theorem readList_delivers (bytes : List UInt8) :
    Delivers (readList bytes) fun index => bytes.getD index 0 := by
  intro offset count part delivered
  cases delivered
  by_cases inside : offset ≤ bytes.length
  · rw [loadBytes_list (by simp only [List.length_take, List.length_drop]; omega),
      List.take_eq_take_iff]
    simp
  · rw [List.drop_eq_nil_of_le (by omega)]
    simp [ByteMemory.loadBytes]

theorem nodeRead_readList {bytes : List UInt8} {offset count : Nat}
    (inside : offset + count ≤ bytes.length) :
    nodeRead (readList bytes) offset count = some ((bytes.drop offset).take count) := by
  have length : ((bytes.drop offset).take count).length = count := by
    simp only [List.length_take, List.length_drop]
    omega
  have whole : readLoop (readList bytes) offset count count [] =
      some ((bytes.drop offset).take count) := by
    cases count with
    | zero => simp [readLoop]
    | succ count =>
    have nonempty : (bytes.drop offset).take (count + 1) ≠ [] := by
      intro empty
      rw [empty] at length
      cases length
    simp only [readLoop, List.length_nil, Nat.zero_lt_succ, ↓reduceIte, readList,
      Nat.add_zero, Nat.sub_zero, nonempty, List.nil_append]
    cases count with
    | zero => rfl
    | succ count =>
        rw [readLoop, if_neg (by omega)]
  simp [nodeRead, whole, length]

theorem length_twoSegments (vaddr : Nat) : (twoSegments vaddr).length = 176 := by
  simp [twoSegments, phdrBytes, fieldBytes]

theorem codeSegment_placed {vaddr : Nat} (above : pageSize ≤ vaddr) (below : vaddr < 2 ^ 32) :
    (codeSegment vaddr).WellPlaced := by
  simp only [Phdr.WellPlaced, codeSegment, pageSize, userLimit] at *
  omega

theorem dataSegment_placed {vaddr : Nat} (above : pageSize ≤ vaddr) (below : vaddr < 2 ^ 32) :
    (dataSegment vaddr).WellPlaced := by
  simp only [Phdr.WellPlaced, dataSegment, pageSize, userLimit] at *
  omega

section Accepts

variable {machine : Machine} {root vaddr : Nat}

theorem twoSegments_loaded (nonzero : root ≠ 0) (valid : WellFormed machine root)
    (plenty : machine.pmm.Plenty 10) (above : pageSize ≤ vaddr) (below : vaddr < 2 ^ 32)
    (aligned : vaddr % pageSize = 0) {read : ReadCallback} (exact : Exact read)
    (readable : ∀ offset count, offset + count ≤ 1 → (read offset count).isSome = true) :
    ∃ machine', loadSegments read 176 root vaddr [codeSegment vaddr, dataSegment vaddr]
      false false machine = (some (true, true), machine') := by
  have onePage : ((codeSegment vaddr).pageEnd - (codeSegment vaddr).pageStart) / pageSize =
      1 ∧ ((dataSegment vaddr).pageEnd - (dataSegment vaddr).pageStart) / pageSize = 1 := by
    simp only [codeSegment, dataSegment, Phdr.pageEnd, Phdr.pageStart, pageSize] at *
    omega
  obtain ⟨first, loadedCode, plentyCode⟩ := @elfLoadSegment_succeeds machine machine root 5 ∅
    (fun _ => 0) read exact (codeSegment vaddr) nonzero (Loaded.refl valid _)
    (codeSegment_placed above below)
    (fun offset count inside => readable offset count (by simpa [codeSegment] using inside))
    (by rw [onePage.1]; exact plenty)
  obtain ⟨data, afterCode, -⟩ :=
    (Loaded.refl valid fun _ => 0).elfLoadSegment exact loadedCode
  obtain ⟨second, loadedData, -⟩ := @elfLoadSegment_succeeds machine first root 0 _ _
    read exact (dataSegment vaddr) nonzero afterCode (dataSegment_placed above below)
    (fun offset count inside => readable offset count (by
      simp only [dataSegment] at inside
      omega))
    (by rw [onePage.2]; exact plentyCode)
  have code : (codeSegment vaddr).accepted 176 = true := by
    simp [Phdr.accepted, codeSegment]
  have data : (dataSegment vaddr).accepted 176 = true := by
    simp [Phdr.accepted, dataSegment]
  have enters : (codeSegment vaddr).enters vaddr = true := by
    simp [Phdr.enters, codeSegment, Phdr.executable]
  have kinds : (codeSegment vaddr).loadable = true ∧ (dataSegment vaddr).loadable = true :=
    ⟨rfl, rfl⟩
  refine ⟨second, ?_⟩
  simp only [loadSegments, kinds.1, kinds.2, code, data, enters, Bool.not_true,
    Bool.false_eq_true, ↓reduceIte, loadedCode, loadedData, Bool.or_true, Bool.true_or]

theorem fdAlloc_idle (node : VfsNode) :
    fdAlloc (idleSystem machine).current node 0 =
      some (3, Function.update (fun _ => ⟨none, 0, 0⟩) 3 ⟨some node, 0, 0⟩) :=
  rfl

/-- With ten pages left, the executable is accepted. -/
theorem twoSegments_accepted (nonzero : root ≠ 0) (valid : WellFormed machine root)
    (plenty : machine.pmm.Plenty 10) (above : pageSize ≤ vaddr) (below : vaddr < 2 ^ 32)
    (aligned : vaddr % pageSize = 0)
    (header : (readEhdr (nodeRead (readList (twoSegments vaddr))) 176).map Ehdr.entry =
      some vaddr)
    (table : (readEhdr (nodeRead (readList (twoSegments vaddr))) 176).bind
      (readPhdrs (nodeRead (readList (twoSegments vaddr)))) =
        some [codeSegment vaddr, dataSegment vaddr]) :
    ∃ system', elfLoad (fun _ => some (twoSegmentsNode vaddr)) (idleSystem machine)
      (some "/two") root = (some vaddr, system') := by
  obtain ⟨ehdr, read, entry⟩ := Option.map_eq_some_iff.mp header
  rw [read, Option.bind_some] at table
  have readable : ∀ offset count, offset + count ≤ 1 →
      (nodeRead (readList (twoSegments vaddr)) offset count).isSome = true := by
    intro offset count inside
    rw [nodeRead_readList (by rw [length_twoSegments]; omega)]
    rfl
  have found : vfsResolve (fun _ => some (twoSegmentsNode vaddr)) "/two" =
      some (twoSegmentsNode vaddr) := by
    simp [vfsResolve]
  obtain ⟨final, done⟩ := twoSegments_loaded nonzero valid plenty above below aligned
    (nodeRead_exact _) readable
  have isFile : (twoSegmentsNode vaddr).flags &&& vfsFile ≠ 0 := by
    simp [twoSegmentsNode, vfsFile]
  have accepted := @elfLoad_of_loadSegments (fun _ => some (twoSegmentsNode vaddr))
    (idleSystem machine) "/two" root (twoSegmentsNode vaddr) nonzero found isFile
    (readList (twoSegments vaddr)) rfl _ _ (fdAlloc_idle (twoSegmentsNode vaddr)) ehdr read
    rfl _ table final (by rw [entry]; exact done)
  rw [entry] at accepted
  exact ⟨_, accepted⟩

end Accepts

theorem twoSegments_accepted_after_boot (memory : ByteMemory) {vaddr : Nat}
    (above : pageSize ≤ vaddr) (below : vaddr < 2 ^ 32) (aligned : vaddr % pageSize = 0)
    (header : (readEhdr (nodeRead (readList (twoSegments vaddr))) 176).map Ehdr.entry =
      some vaddr)
    (table : (readEhdr (nodeRead (readList (twoSegments vaddr))) 176).bind
      (readPhdrs (nodeRead (readList (twoSegments vaddr)))) =
        some [codeSegment vaddr, dataSegment vaddr]) :
    ∃ root machine pd system',
      newAddressSpace (bootMachine memory) 0 = some (root, machine) ∧
      tableAt machine.memory root [0, 0] = some pd ∧
      (∀ index, readEntry machine.memory pd index =
        BitVec.ofNat 64 ((index : Nat) * 2 ^ 21 + 0x83)) ∧
      WellFormed machine root ∧
      elfLoad (fun _ => some (twoSegmentsNode vaddr)) (idleSystem machine) (some "/two")
        root = (some vaddr, system') := by
  obtain ⟨root, machine, pd, created, reached, leaves, left⟩ :=
    newAddressSpace_bootMachine memory
  obtain ⟨nonzero, valid⟩ := wellFormed_of_run (kernelSpace_bootMachine memory) created .start
  have plenty : machine.pmm.Plenty 10 := by
    rw [left]
    exact plenty_newAddressSpace.mono (by norm_num)
  obtain ⟨system', accepted⟩ :=
    twoSegments_accepted nonzero valid plenty above below aligned header table
  exact ⟨root, machine, pd, system', created, reached, leaves, valid, accepted⟩

theorem vfsResolve_two (node : VfsNode) :
    vfsResolve (fun _ => some node) "/two" = some node := by
  simp [vfsResolve]

/-- Above the identity map the executable replaces no translation of the kernel. -/
theorem elf_load_keeps_supervisor_iff_after_boot :
    ∃ root machine system',
      newAddressSpace (bootMachine fun _ => 0) 0 = some (root, machine) ∧
      elfLoad (fun _ => some (twoSegmentsNode 0x40000000)) (idleSystem machine) (some "/two")
        root = (some 0x40000000, system') ∧
      ((∀ virt translation, hardwareWalk machine.memory root virt = some translation →
          translation.user = false →
          hardwareWalk system'.machine.memory root virt = some translation) ↔
        ∀ phdr ∈ segments (twoSegmentsNode 0x40000000), ∀ virt translation,
          phdr.Covers virt → hardwareWalk machine.memory root virt = some translation →
          translation.user = true) := by
  obtain ⟨root, machine, pd, system', created, -, -, -, accepted⟩ :=
    @twoSegments_accepted_after_boot (fun _ => 0) 0x40000000 (by decide)
      (by decide) (by decide) (by decide +kernel) (by decide +kernel)
  exact ⟨root, machine, system', created, accepted,
    @elf_load_keeps_supervisor_iff _ machine 0 root _ [] _ (idleSystem machine) system' "/two"
      _ (kernelSpace_bootMachine _) created .start (vfsResolve_two _) accepted⟩

/-- An executable at `0x400000` replaces a page of the kernel's identity map. -/
theorem elf_load_replaces_identity_map :
    ∃ root machine system' translation,
      newAddressSpace (bootMachine fun _ => 0) 0 = some (root, machine) ∧
      elfLoad (fun _ => some (twoSegmentsNode 0x400000)) (idleSystem machine) (some "/two")
        root = (some 0x400000, system') ∧
      hardwareWalk machine.memory root 0x400000 = some translation ∧
      translation.frame = 0x400000 ∧ translation.user = false ∧
      hardwareWalk system'.machine.memory root 0x400000 ≠ some translation := by
  obtain ⟨root, machine, pd, system', created, reached, leaves, valid, accepted⟩ :=
    @twoSegments_accepted_after_boot (fun _ => 0) 0x400000 (by decide)
      (by decide) (by decide) (by decide +kernel) (by decide +kernel)
  have directory : tableAt machine.memory root [pml4Index 0x400000, pdptIndex 0x400000] =
      some pd := reached
  have leaf : readEntry machine.memory pd (pdIndex 0x400000) = 0x400083#64 := leaves 2
  have walked : hardwareWalk machine.memory root 0x400000 =
      some ⟨0x400000, true, false, false⟩ := by
    rw [valid.hardwareWalk_eq (.inl (by decide)), view_of_directory directory
      (child_eq_none_of_huge (by rw [leaf]; rfl)), leaf]
    decide
  refine ⟨root, machine, system', _, created, accepted, walked, rfl, rfl, ?_⟩
  obtain ⟨content, loaded, -⟩ :=
    loaded_of_elfLoad valid (vfsResolve_two _) accepted fun _ => 0
  have listed : segments (twoSegmentsNode 0x400000) =
      [codeSegment 0x400000, dataSegment 0x400000] := by
    decide +kernel
  rw [listed] at loaded
  obtain ⟨translation, found, access, -⟩ := loaded.mapped (0x400000 / pageSize)
    (mem_segmentPages List.mem_cons_self ⟨by decide, by decide, by decide⟩)
  rw [pageMap, hardwareWalk_page] at found
  rw [found]
  rintro same
  cases same
  cases access

theorem twoSegments_disjoint (vaddr : Nat) :
    [codeSegment vaddr, dataSegment vaddr].Pairwise fun early late =>
      Disjoint early.range late.range := by
  simp only [List.pairwise_cons, List.mem_singleton, forall_eq, List.not_mem_nil,
    false_implies, implies_true, List.Pairwise.nil, and_self, and_true, Set.disjoint_left]
  intro virt inside inside'
  simp only [Phdr.range, codeSegment, dataSegment, Set.mem_ofPred_eq] at inside inside'
  omega

/-- The image of the executable with two segments on one page. -/
theorem elf_load_image_iff_after_boot :
    ∃ root machine system',
      newAddressSpace (bootMachine fun _ => 0) 0 = some (root, machine) ∧
      elfLoad (fun _ => some (twoSegmentsNode 0x40000000)) (idleSystem machine) (some "/two")
        root = (some 0x40000000, system') ∧
      ((∀ phdr ∈ segments (twoSegmentsNode 0x40000000),
          Prescribed (fun index => (twoSegments 0x40000000).getD index 0) phdr
            (userByte system'.machine root)) ↔
        (segments (twoSegmentsNode 0x40000000)).Pairwise
          (Spared fun index => (twoSegments 0x40000000).getD index 0)) := by
  obtain ⟨root, machine, pd, system', created, -, -, -, accepted⟩ :=
    @twoSegments_accepted_after_boot (fun _ => 0) 0x40000000 (by decide)
      (by decide) (by decide) (by decide +kernel) (by decide +kernel)
  have listed : segments (twoSegmentsNode 0x40000000) =
      [codeSegment 0x40000000, dataSegment 0x40000000] := by
    decide +kernel
  have delivers : ∀ read, (twoSegmentsNode 0x40000000).read = some read →
      Delivers read fun index => (twoSegments 0x40000000).getD index 0 := by
    intro read same
    cases same
    exact readList_delivers _
  refine ⟨root, machine, system', created, accepted,
    (@elf_load_image_iff _ machine 0 root _ [] _ (idleSystem machine) system' "/two" _
      (kernelSpace_bootMachine _) created .start (vfsResolve_two _) _ delivers
      (listed ▸ twoSegments_disjoint _) accepted fun page touched => ?_).1⟩
  obtain ⟨inPlace, low⟩ := touched_after_boot created touched
  refine ⟨inPlace, ?_⟩
  rw [listed]
  rintro ⟨phdr, member, -, start, -⟩
  have above : 0x40000000 ≤ phdr.pageStart := by
    fin_cases member <;> decide
  simp only [pageSize] at start
  omega

/-- The code byte of the executable is the first byte of the file, but after loading it
is zero: the data segment, on the same page, has been given a fresh page. -/
theorem elf_load_clears_shared_page :
    ∃ root machine system',
      newAddressSpace (bootMachine fun _ => 0) 0 = some (root, machine) ∧
      elfLoad (fun _ => some (twoSegmentsNode 0x40000000)) (idleSystem machine) (some "/two")
        root = (some 0x40000000, system') ∧
      segments (twoSegmentsNode 0x40000000) =
        [codeSegment 0x40000000, dataSegment 0x40000000] ∧
      [codeSegment 0x40000000, dataSegment 0x40000000].Pairwise (fun early late =>
        Disjoint early.range late.range) ∧
      (twoSegments 0x40000000).getD 0 0 = 0x7F ∧
      userByte system'.machine root 0x40000000 = some 0 ∧
      ¬ Prescribed (fun index => (twoSegments 0x40000000).getD index 0)
        (codeSegment 0x40000000) (userByte system'.machine root) := by
  obtain ⟨root, machine, pd, system', created, -, -, valid, accepted⟩ :=
    @twoSegments_accepted_after_boot (fun _ => 0) 0x40000000 (by decide)
      (by decide) (by decide) (by decide +kernel) (by decide +kernel)
  have listed : segments (twoSegmentsNode 0x40000000) =
      [codeSegment 0x40000000, dataSegment 0x40000000] := by
    decide +kernel
  suffices wiped : userByte system'.machine root 0x40000000 = some 0 by
    refine ⟨root, machine, system', created, accepted, listed, twoSegments_disjoint _, rfl,
      wiped, fun prescribed => ?_⟩
    have code : userByte system'.machine root 0x40000000 = some 0x7F :=
      prescribed.1 0 Nat.one_pos
    rw [wiped] at code
    cases code
  obtain ⟨content, loaded, origin⟩ :=
    loaded_of_elfLoad valid (vfsResolve_two _) accepted fun _ => 0
  have content_eq := origin (fun index => (twoSegments 0x40000000).getD index 0) (by
    intro read same
    cases same
    exact readList_delivers _)
  rw [listed] at loaded content_eq
  have covered : (dataSegment 0x40000000).Covers 0x40000000 :=
    ⟨by decide, by decide, by decide⟩
  have cleared : content 0x40000000 = 0 := by
    have outside : (0x40000000 : Nat) ∉ (dataSegment 0x40000000).range := by
      simp [Phdr.range, dataSegment]
    rw [content_eq, image, List.foldl_cons, List.foldl_cons, List.foldl_nil,
      Phdr.place_of_outside (by decide) outside, if_pos covered]
  exact (loaded.ringThree_read
    (mem_segmentPages (List.mem_cons_of_mem _ List.mem_cons_self) covered)).trans
    (congrArg some cleared)

end Charis.Exec
