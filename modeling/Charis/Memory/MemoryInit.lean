import Charis.Memory.CurrentSpace
import Charis.Memory.PmmRefinement

/-!
# Memory at boot

`memory_init` runs the page allocator over the memory map, reserves the framebuffer page by
page and maps the heap with pages that it allocates.  Each of the three kinds of reserved range
is turned into pages by a loop of its own, which rounds the ends of the range in its own way.
-/

namespace Charis.Memory

open Charis.Lib Pmm

/-- What the boot loader reports: the regions of the memory map and the framebuffer. -/
structure BootReport where
  regions : List MemMapEntry
  hasFramebuffer : Bool
  framebufferAddr : UInt64
  framebufferPitch : UInt32
  framebufferHeight : UInt32

namespace BootReport

/-- `bootmem_regions`: the regions that fit into the kernel's copy. -/
def bootmemRegions (report : BootReport) : MemoryMap where
  regions := report.regions.take bootmemMaxRegions
  length_le := List.length_take_le _ _

/-- `fb_bytes` of `memory_init`. -/
def framebufferBytes (report : BootReport) : UInt64 :=
  report.framebufferPitch.toUInt64 * report.framebufferHeight.toUInt64

/-- `fb_start` of `memory_init`. -/
def framebufferStart (report : BootReport) : UInt64 := report.framebufferAddr &&& ~~~(4096 - 1)

end BootReport

/-- The loop of `memory_init` over the framebuffer.  The address may wrap around, and then the
loop has no end. -/
def reserveFramebuffer (stop : UInt64) : (fuel : Nat) → Pmm → UInt64 → Option Pmm
  | 0, _, _ => none
  | fuel + 1, pmm, address =>
      if address < stop then
        reserveFramebuffer stop fuel (pmm.reserveRange address.toNat pageSize) (address + 4096)
      else some pmm

/-- The reservations of `memory_init`. -/
def reserveMemory (pmm : Pmm) (report : BootReport) (kernelEnd fuel : Nat) : Option Pmm :=
  let pmm := pmm.pmmInit report.bootmemRegions kernelEnd
  if report.hasFramebuffer then
    let start := report.framebufferStart
    reserveFramebuffer (start + report.framebufferBytes) fuel pmm start
  else some pmm

/-- `HEAP_START`. -/
abbrev heapStart : Nat := 0xFFFF900000000000

/-- `HEAP_SIZE`, in pages. -/
abbrev heapPages : Nat := 1024

/-- The loop of `memory_init` over the heap, with `remaining` pages left to map.  The processor
is halted for good when there is none. -/
def mapHeap (machine : Machine) (address : Nat) : (remaining : Nat) → Option Machine
  | 0 => some machine
  | remaining + 1 =>
      let (phys, pmm) := machine.pmm.allocPage
      if phys = 0 then none
      else mapHeap (mapPage { machine with pmm } address phys 2#64).2 (address + pageSize) remaining

/-- `memory_init`, up to the initialisation of the heap. -/
def memoryInit (machine : Machine) (report : BootReport) (kernelEnd fuel : Nat) :
    Option Machine := do
  let pmm ← reserveMemory machine.pmm report kernelEnd fuel
  mapHeap { machine with pmm } heapStart heapPages

section Framebuffer

variable {pmm pmm' : Pmm} {stop address : UInt64} {fuel query : Nat}

theorem framebufferBytes_toNat (report : BootReport) :
    report.framebufferBytes.toNat =
      report.framebufferPitch.toNat * report.framebufferHeight.toNat := by
  have small : report.framebufferPitch.toNat * report.framebufferHeight.toNat ≤
      (2 ^ 32 - 1) * (2 ^ 32 - 1) :=
    Nat.mul_le_mul (Nat.le_pred_of_lt report.framebufferPitch.toNat_lt)
      (Nat.le_pred_of_lt report.framebufferHeight.toNat_lt)
  rw [BootReport.framebufferBytes, UInt64.toNat_mul, UInt32.toNat_toUInt64,
    UInt32.toNat_toUInt64]
  exact Nat.mod_eq_of_lt (by omega)

theorem framebufferStart_toNat (report : BootReport) :
    report.framebufferStart.toNat = report.framebufferAddr.toNat / 4096 * 4096 := by
  exact Entry.tableAddress_eq report.framebufferAddr.toBitVec

theorem next_toNat (aligned : address.toNat % 4096 = 0) :
    (address + 4096).toNat = if address.toNat = 2 ^ 64 - 4096 then 0 else address.toNat + 4096 := by
  have small := address.toNat_lt
  rw [UInt64.toNat_add]
  split <;> simp only [UInt64.reduceToNat] <;> omega

/-- An end in the last page of the address space is never reached. -/
theorem reserveFramebuffer_endless (large : 2 ^ 64 - 4096 < stop.toNat)
    (aligned : address.toNat % 4096 = 0) : reserveFramebuffer stop fuel pmm address = none := by
  induction fuel generalizing pmm address with
  | zero => rfl
  | succ fuel ih =>
  have small := address.toNat_lt
  have before : address < stop := by
    rw [UInt64.lt_iff_toNat_lt]
    omega
  rw [reserveFramebuffer, if_pos before]
  apply ih
  rw [next_toNat aligned]
  split <;> omega

/-- The loop makes the pages from `address` to `stop` unavailable. -/
theorem available_reserveFramebuffer (small : stop.toNat ≤ 2 ^ 64 - 4096)
    (aligned : address.toNat % 4096 = 0)
    (returns : reserveFramebuffer stop fuel pmm address = some pmm') :
    pmm'.Available query ↔
      pmm.Available query ∧ ¬ (address.toNat ≤ query ∧ query < stop.toNat) := by
  induction fuel generalizing pmm address with
  | zero => cases returns
  | succ fuel ih =>
  rw [reserveFramebuffer] at returns
  split at returns
  · next before =>
      rw [UInt64.lt_iff_toNat_lt] at before
      have next := next_toNat aligned
      rw [if_neg (by omega)] at next
      rw [ih (by rw [next]; omega) returns, next,
        available_reserveRange (by simp only [pageSize]; omega), and_assoc]
      refine and_congr_right fun free => ?_
      have residue := free.aligned
      simp only [pageSize]
      omega
  · next reached =>
      rw [UInt64.lt_iff_toNat_lt] at reached
      cases returns
      exact ⟨fun free => ⟨free, by omega⟩, fun both => both.1⟩

end Framebuffer

/-- A byte of the range is one of the page. -/
def Overlaps (start length page : Nat) : Prop :=
  ∃ byte, start ≤ byte ∧ byte < start + length ∧ page ≤ byte ∧ byte < page + pageSize

theorem overlaps_iff {start length page : Nat} :
    Overlaps start length page ↔
      0 < length ∧ start < page + pageSize ∧ page < start + length := by
  constructor
  · rintro ⟨byte, above, below, after, before⟩
    omega
  · rintro ⟨some, before, after⟩
    exact ⟨max start page, le_max_left _ _, by omega, le_max_right _ _, by
      simp only [pageSize] at *
      omega⟩

/-- A step of the walk over a region falls into the page.  The page that the region ends in is
passed over when the region ends at or below the offset at which it begins in its own page. -/
theorem MemMapEntry.hides_page_iff {region : MemMapEntry} {page : Nat} (isPage : IsPage page)
    (low : region.base.toNat < 2 ^ 44) (hidden : region.type ≠ multibootMemoryAvailable)
    (fits : region.base.toNat + region.length.toNat < 2 ^ 64) :
    region.Hides page ↔
      region.base.toNat < page + pageSize ∧
        page + region.base.toNat % pageSize < region.base.toNat + region.length.toNat := by
  obtain ⟨index, indexLt, rfl⟩ := isPage
  have enters : entersAt 32 region.base.toNat = region.base.toNat := by
    rw [entersAt]
    split
    · rfl
    · rw [pageNumber]
      simp only [pageSize, bitmapBase] at *
      omega
  simp only [MemMapEntry.Hides, ne_eq, hidden, not_false_eq_true, fits, true_and, enters]
  simp only [pageSize, bitmapBase] at *
  omega

namespace BootReport

/-- The page overlaps the kernel image, a region that is not available or the framebuffer. -/
def Occupies (report : BootReport) (kernelEnd page : Nat) : Prop :=
  Overlaps bitmapBase (kernelEnd - bitmapBase) page ∨
    (∃ region ∈ report.regions, region.type ≠ multibootMemoryAvailable ∧
      Overlaps region.base.toNat region.length.toNat page) ∨
    (report.hasFramebuffer = true ∧ Overlaps report.framebufferAddr.toNat
      (report.framebufferPitch.toNat * report.framebufferHeight.toNat) page)

/-- The loop over the framebuffer meets the page.  It starts at the page that the framebuffer
begins in and goes on for as many bytes as the framebuffer has. -/
def HidesFramebuffer (report : BootReport) (page : Nat) : Prop :=
  let start := report.framebufferAddr.toNat / pageSize * pageSize
  let bytes := report.framebufferPitch.toNat * report.framebufferHeight.toNat
  report.hasFramebuffer = true ∧ start + bytes < 2 ^ 64 ∧ start ≤ page ∧ page < start + bytes

/-- The page is one that `memory_init` reserves. -/
def Reserves (report : BootReport) (kernelEnd page : Nat) : Prop :=
  page < kernelEnd ∨ (∃ region ∈ report.regions.take bootmemMaxRegions, region.Hides page) ∨
    report.HidesFramebuffer page

/-- Each page of the bitmap that overlaps memory in use is one that `memory_init` reserves. -/
def Covered (report : BootReport) (kernelEnd : Nat) : Prop :=
  ∀ page, IsPage page → report.Occupies kernelEnd page → report.Reserves kernelEnd page

/-- Regions and a framebuffer that begin on page boundaries are covered as long as they fit into
the kernel's copy and into the address space. -/
theorem covered_of_aligned {report : BootReport} (kernelEnd : Nat)
    (few : report.regions.length ≤ bootmemMaxRegions)
    (regions : ∀ region ∈ report.regions, region.type ≠ multibootMemoryAvailable →
      region.base.toNat % pageSize = 0 ∧ region.base.toNat + region.length.toNat < 2 ^ 64)
    (framebuffer : report.hasFramebuffer = true → report.framebufferAddr.toNat % pageSize = 0 ∧
      report.framebufferAddr.toNat +
        report.framebufferPitch.toNat * report.framebufferHeight.toNat < 2 ^ 64) :
    report.Covered kernelEnd := by
  intro page isPage occupies
  rcases occupies with kernel | ⟨region, member, hidden, overlaps⟩ | ⟨has, overlaps⟩
  · rw [overlaps_iff] at kernel
    exact .inl (by simp only [bitmapBase] at kernel; omega)
  · obtain ⟨aligned, fits⟩ := regions region member hidden
    rw [overlaps_iff] at overlaps
    have low : page < 2 ^ 33 := by
      obtain ⟨index, indexLt, rfl⟩ := isPage
      simp only [bitmapSize, bitmapBase, pageSize] at *
      omega
    have hides : region.Hides page :=
      (MemMapEntry.hides_page_iff isPage (by simp only [pageSize] at overlaps; omega) hidden fits).mpr
        ⟨overlaps.2.1, by rw [aligned]; exact overlaps.2.2⟩
    rw [← List.take_of_length_le few] at member
    exact .inr (.inl ⟨region, member, hides⟩)
  · obtain ⟨aligned, fits⟩ := framebuffer has
    have start : report.framebufferAddr.toNat / pageSize * pageSize =
        report.framebufferAddr.toNat := Nat.div_mul_cancel (Nat.dvd_of_mod_eq_zero aligned)
    rw [overlaps_iff] at overlaps
    obtain ⟨index, -, rfl⟩ := isPage
    refine .inr (.inr ⟨has, by rw [start]; exact fits, ?_, by rw [start]; exact overlaps.2.2⟩)
    rw [start]
    have before := overlaps.2.1
    simp only [pageSize, bitmapBase] at before aligned ⊢
    omega

end BootReport

section Reservations

variable {pmm reserved : Pmm} {report : BootReport} {kernelEnd fuel query : Nat}

/-- The loop over the framebuffer runs to its end, or its end is beyond the address space and it
does nothing. -/
theorem available_framebuffer (has : report.hasFramebuffer = true)
    (returns : reserveFramebuffer (report.framebufferStart + report.framebufferBytes) fuel pmm
      report.framebufferStart = some reserved) :
    reserved.Available query ↔ pmm.Available query ∧ ¬ report.HidesFramebuffer query := by
  have start := framebufferStart_toNat report
  have bytes := framebufferBytes_toNat report
  have aligned : report.framebufferStart.toNat % 4096 = 0 := by
    rw [start]
    exact Nat.mul_mod_left _ _
  have small : (report.framebufferStart + report.framebufferBytes).toNat ≤ 2 ^ 64 - 4096 := by
    by_contra large
    rw [reserveFramebuffer_endless (Nat.not_le.mp large) aligned] at returns
    cases returns
  rw [available_reserveFramebuffer small aligned returns]
  refine and_congr_right fun free => not_congr ?_
  have startLt := report.framebufferStart.toNat_lt
  have bytesLt := report.framebufferBytes.toNat_lt
  have queryLt := free.lt
  rw [UInt64.toNat_add] at small ⊢
  simp only [BootReport.HidesFramebuffer, has, true_and, ← bytes, pageSize, ← start]
  omega

/-- What the allocator may hand out when the reservations are done. -/
theorem available_reserveMemory
    (returns : reserveMemory pmm report kernelEnd fuel = some reserved) :
    reserved.Available query ↔ IsPage query ∧ ¬ report.Reserves kernelEnd query := by
  have before := available_pmmInit pmm report.bootmemRegions kernelEnd query
  have after : reserved.Available query ↔
      (pmm.pmmInit report.bootmemRegions kernelEnd).Available query ∧
        ¬ report.HidesFramebuffer query := by
    simp only [reserveMemory] at returns
    split at returns
    · next has => exact available_framebuffer has returns
    · next none =>
        cases returns
        exact ⟨fun free => ⟨free, fun hides => none hides.1⟩, fun both => both.1⟩
  rw [after, before, BootReport.Reserves]
  simp only [not_or, not_exists, not_and, not_lt, and_assoc, BootReport.bootmemRegions]

end Reservations

/-! ## The heap -/

section Heap

variable {machine machine' : Machine} {count : Nat}

/-- No page becomes available. -/
def OnlyTakes (machine machine' : Machine) : Prop :=
  ∀ page, machine'.pmm.Available page → machine.pmm.Available page

theorem OnlyTakes.trans {machine'' : Machine} (first : OnlyTakes machine machine')
    (second : OnlyTakes machine' machine'') : OnlyTakes machine machine'' :=
  fun page free => first page (second page free)

theorem allocPage_onlyTakes (machine : Machine) :
    OnlyTakes machine { machine with pmm := machine.pmm.allocPage.2 } := by
  intro page free
  rcases machine.pmm.allocPage_cases with failed | taken
  · rw [failed] at free
    exact free
  · exact ((taken.2 page).mp free).1

theorem getOrCreateTable_onlyTakes (parent : Nat) (index : Fin 512) (flags : Entry) :
    OnlyTakes machine (getOrCreateTable machine parent index flags).2 := by
  have taken := allocPage_onlyTakes machine
  simp only [getOrCreateTable]
  split
  · exact fun page free => free
  · split
    · exact taken
    · exact taken

theorem mapPage_onlyTakes (virt phys : Nat) (flags : Entry) :
    OnlyTakes machine (mapPage machine virt phys flags).2 := by
  have step (machine : Machine) (parent : Nat) (index : Fin 512) {ok : Bool} {machine' : Machine}
      (called : getOrCreateTable machine parent index 0 = (ok, machine')) :
      OnlyTakes machine machine' := by
    have taken := @getOrCreateTable_onlyTakes machine parent index 0
    rw [called] at taken
    exact taken
  simp only [mapPage]
  split
  · next first => exact step _ _ _ first
  · next first =>
      split
      · next second => exact (step _ _ _ first).trans (step _ _ _ second)
      · next second =>
          have taken := (step _ _ _ first).trans (step _ _ _ second)
          split
          · next third => exact taken.trans (step _ _ _ third)
          · next third => exact fun page free => taken page (step _ _ _ third page free)

theorem mapPage_succeeds (plenty : machine.pmm.Plenty (count + 3)) (virt phys : Nat)
    (flags : Entry) : (mapPage machine virt phys flags).2.pmm.Plenty count := by
  obtain ⟨machine₁, first, plenty₁⟩ :=
    getOrCreateTable_succeeds plenty machine.cr3 (pml4Index virt) 0
  obtain ⟨machine₂, second, plenty₂⟩ := getOrCreateTable_succeeds plenty₁
    (Entry.tableAddress (readEntry machine₁.memory machine.cr3 (pml4Index virt)))
    (pdptIndex virt) 0
  obtain ⟨machine₃, third, plenty₃⟩ := getOrCreateTable_succeeds plenty₂
    (Entry.tableAddress (readEntry machine₂.memory
      (Entry.tableAddress (readEntry machine₁.memory machine.cr3 (pml4Index virt)))
      (pdptIndex virt))) (pdIndex virt) 0
  simp only [mapPage, first, second, third]
  exact plenty₃

theorem mapHeap_onlyTakes {address remaining : Nat}
    (mapped : mapHeap machine address remaining = some machine') : OnlyTakes machine machine' := by
  induction remaining generalizing machine address with
  | zero =>
      cases mapped
      exact fun page free => free
  | succ remaining ih =>
      simp only [mapHeap] at mapped
      split at mapped
      · cases mapped
      · exact (allocPage_onlyTakes machine).trans ((mapPage_onlyTakes _ _ _).trans (ih mapped))

/-- With four pages for each page of the heap, all of it is mapped. -/
theorem mapHeap_returns {remaining : Nat} (plenty : machine.pmm.Plenty (remaining * 4))
    (address : Nat) : ∃ machine', mapHeap machine address remaining = some machine' := by
  induction remaining generalizing machine address with
  | zero => exact ⟨machine, rfl⟩
  | succ remaining ih =>
      have split : (remaining + 1) * 4 = remaining * 4 + 3 + 1 := by omega
      rw [split] at plenty
      obtain ⟨taken, left⟩ := plenty.allocPage
      simp only [mapHeap, if_neg taken.1.pos.ne']
      exact ih (mapPage_succeeds left _ _ _) _

end Heap

/-- The page was handed out between two states of the allocator. -/
def Allocated (before after : Pmm) (page : Nat) : Prop :=
  before.Available page ∧ ¬ after.Available page

/-- Only allocations, and frees of pages that are in `taken` or that the allocator has
returned. -/
def FreesAllocated (taken : Nat → Prop) (history : PmmHistory) : PmmEvent → Prop
  | .alloc _ => True
  | .free address => address ∈ history.returned ∨ taken address
  | .reserve _ _ => False

/-- After `memory_init`, no page that overlaps memory in use is ever returned, whichever pages
that were allocated are freed. -/
def Protects (machine : Machine) (report : BootReport) (kernelEnd : Nat) : Prop :=
  ∀ fuel reserved machine',
    reserveMemory machine.pmm report kernelEnd fuel = some reserved →
    memoryInit machine report kernelEnd fuel = some machine' →
      ReturnsOnly (FreesAllocated (Allocated reserved machine'.pmm)) machine'.pmm
        fun page => ¬ report.Occupies kernelEnd page

section Protects

variable {machine machine' : Machine} {report : BootReport} {kernelEnd fuel : Nat}
  {reserved : Pmm} {pages : Nat → Prop}

theorem memoryInit_eq (reserves : reserveMemory machine.pmm report kernelEnd fuel = some reserved) :
    memoryInit machine report kernelEnd fuel =
      mapHeap { machine with pmm := reserved } heapStart heapPages := by
  rw [memoryInit, reserves]
  rfl

theorem exists_reserved (returns : memoryInit machine report kernelEnd fuel = some machine') :
    ∃ reserved, reserveMemory machine.pmm report kernelEnd fuel = some reserved := by
  rcases reserves : reserveMemory machine.pmm report kernelEnd fuel with - | reserved
  · rw [memoryInit, reserves] at returns
    cases returns
  · exact ⟨reserved, rfl⟩

theorem memoryInit_returnsOnly
    (reserves : reserveMemory machine.pmm report kernelEnd fuel = some reserved)
    (returns : memoryInit machine report kernelEnd fuel = some machine') :
    ReturnsOnly (FreesAllocated (Allocated reserved machine'.pmm)) machine'.pmm pages ↔
      ∀ page, IsPage page → ¬ report.Reserves kernelEnd page → pages page := by
  rw [memoryInit_eq reserves] at returns
  have fewer := mapHeap_onlyTakes returns
  rw [returnsOnly_iff (fun page taken => taken.1.isPage) (fun _ _ => trivial)
    (fun _ _ taken => .inr taken) (fun _ _ frees => frees) (fun _ _ _ reserves => reserves)]
  refine forall_congr' fun page => ?_
  rw [← and_imp, ← available_reserveMemory reserves]
  refine imp_congr_left ?_
  constructor
  · rintro (free | taken)
    · exact fewer page free
    · exact taken.1
  · intro free
    by_cases left : machine'.pmm.Available page
    · exact .inl left
    · exact .inr ⟨free, left⟩

/-- After `memory_init`, the pages that the allocator returns stay clear of the kernel image, of
all regions that are not available and of the framebuffer if and only if each page of the bitmap
that overlaps one of these is among those that `memory_init` reserves. -/
theorem memoryInit_protects_iff
    (returns : ∃ fuel machine', memoryInit machine report kernelEnd fuel = some machine') :
    Protects machine report kernelEnd ↔ report.Covered kernelEnd := by
  have spec {fuel : Nat} {reserved : Pmm} {machine' : Machine}
      (reserves : reserveMemory machine.pmm report kernelEnd fuel = some reserved)
      (returns : memoryInit machine report kernelEnd fuel = some machine') :
      ReturnsOnly (FreesAllocated (Allocated reserved machine'.pmm)) machine'.pmm
        (fun page => ¬ report.Occupies kernelEnd page) ↔ report.Covered kernelEnd := by
    rw [memoryInit_returnsOnly reserves returns]
    exact forall_congr' fun page => imp_congr_right fun isPage => not_imp_not
  constructor
  · intro protects
    obtain ⟨fuel, machine', returns⟩ := returns
    obtain ⟨reserved, reserves⟩ := exists_reserved returns
    exact (spec reserves returns).mp (protects fuel reserved machine' reserves returns)
  · intro covered fuel reserved machine' reserves returns
    exact (spec reserves returns).mpr covered

end Protects

/-- A machine with empty memory. -/
def blankMachine : Machine := ⟨fun _ => 0, emptyPmm, 0⟩

/-- 64 MiB of memory from the second megabyte on, with one page-sized region in it that the
firmware keeps, and no framebuffer. -/
def reportKeeping (base : UInt64) : BootReport where
  regions := [⟨0x100000, 0x4000000, 1⟩, ⟨base, 0x1000, 2⟩]
  hasFramebuffer := false
  framebufferAddr := 0
  framebufferPitch := 0
  framebufferHeight := 0

section Keeping

variable {base : UInt64} {reserved : Pmm}

theorem reserves_keeping {page : Nat} :
    (reportKeeping base).Reserves 0x200000 page ↔
      page < 0x200000 ∨ (⟨base, 0x1000, 2⟩ : MemMapEntry).Hides page := by
  simp [BootReport.Reserves, reportKeeping, BootReport.HidesFramebuffer, MemMapEntry.Hides]

/-- The pages above the third megabyte are enough for the heap. -/
theorem plenty_keeping (low : base.toNat < 0x300000)
    (reserves : reserveMemory emptyPmm (reportKeeping base) 0x200000 0 = some reserved) :
    reserved.Plenty (heapPages * 4) := by
  have free (index : Nat) (small : index < 4096) :
      reserved.Available (0x400000 + index * pageSize) := by
    rw [available_reserveMemory reserves, reserves_keeping]
    have isPage : IsPage (0x400000 + index * pageSize) :=
      ⟨768 + index, by simp only [bitmapSize]; omega, by
        simp only [bitmapBase, pageSize]
        omega⟩
    refine ⟨isPage, ?_⟩
    rintro (kernel | hides)
    · simp only [pageSize] at kernel
      omega
    · rw [MemMapEntry.hides_page_iff isPage (by simp only; omega) hides.1 hides.2.1] at hides
      simp only [pageSize, UInt64.reduceToNat] at hides
      omega
  refine ⟨(Finset.range 4096).image fun index => 0x400000 + index * pageSize, ?_, ?_⟩
  · rw [Finset.card_image_of_injective _ fun first second same => by
      simp only [pageSize] at same
      omega]
    exact (Finset.card_range 4096).ge
  · intro page member
    obtain ⟨index, below, rfl⟩ := Finset.mem_image.mp member
    exact free index (Finset.mem_range.mp below)

theorem memoryInit_keeping (low : base.toNat < 0x300000) :
    ∃ machine', memoryInit blankMachine (reportKeeping base) 0x200000 0 = some machine' := by
  obtain ⟨reserved, reserves⟩ :
      ∃ reserved, reserveMemory emptyPmm (reportKeeping base) 0x200000 0 = some reserved :=
    ⟨_, rfl⟩
  rw [@memoryInit_eq blankMachine _ _ _ _ reserves]
  exact mapHeap_returns (plenty_keeping low reserves) _

end Keeping

/-- A region that is a page is kept. -/
theorem memoryInit_protects_page : Protects blankMachine (reportKeeping 0x200000) 0x200000 := by
  have covered : (reportKeeping 0x200000).Covered 0x200000 := by
    apply BootReport.covered_of_aligned
    · decide
    · simp [reportKeeping, pageSize]
    · intro has
      cases has
  obtain ⟨machine', returns⟩ := @memoryInit_keeping 0x200000 (by decide)
  exact (memoryInit_protects_iff ⟨0, machine', returns⟩).mpr covered

/-- Of a region that begins and ends in the middle of a page, the second page is handed out. -/
theorem memoryInit_returns_reserved_page :
    (∃ machine', memoryInit blankMachine (reportKeeping 0x200800) 0x200000 0 = some machine') ∧
      Overlaps 0x200800 0x1000 0x201000 ∧
      ¬ Protects blankMachine (reportKeeping 0x200800) 0x200000 := by
  have isPage : IsPage 0x201000 := ⟨0x101, by decide, rfl⟩
  have overlaps : Overlaps 0x200800 0x1000 0x201000 := overlaps_iff.mpr (by decide)
  have occupies : (reportKeeping 0x200800).Occupies 0x200000 0x201000 :=
    .inr (.inl ⟨⟨0x200800, 0x1000, 2⟩, by simp [reportKeeping], by decide, overlaps⟩)
  have handed : ¬ (reportKeeping 0x200800).Reserves 0x200000 0x201000 := by
    rw [reserves_keeping, MemMapEntry.hides_page_iff isPage (by decide) (by decide) (by decide)]
    decide
  obtain ⟨machine', returns⟩ := @memoryInit_keeping 0x200800 (by decide)
  obtain ⟨reserved, reserves⟩ := exists_reserved returns
  refine ⟨⟨machine', returns⟩, overlaps, fun protects => ?_⟩
  have only := (memoryInit_returnsOnly reserves returns).mp
    (protects 0 reserved machine' reserves returns)
  exact only _ isPage handed occupies

end Charis.Memory
