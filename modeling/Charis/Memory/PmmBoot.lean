import Charis.Memory.Pmm

/-!
# Reserved pages and the memory map of the firmware

The allocator starts from an empty bitmap.  It marks the pages of the kernel
image and those that it meets on its way through the regions of the memory map
that are not available, and later the ranges that a driver reserves.  All three
are walks in steps of one page which set bits and leave the cursor alone.
-/

namespace Charis.Memory

/-- The kind of a region of available memory. -/
abbrev multibootMemoryAvailable : UInt32 := 1

/-- Regions that fit into the kernel's copy of the memory map. -/
abbrev bootmemMaxRegions : Nat := 48

/-- A region of the memory map. -/
structure MemMapEntry where
  base : UInt64
  length : UInt64
  type : UInt32
  deriving DecidableEq

/-- The memory map as `bootmem_read_mmap` keeps it. -/
structure MemoryMap where
  regions : List MemMapEntry
  length_le : regions.length ≤ bootmemMaxRegions

namespace Pmm

/-- Set the bit of a page, given by its number, and leave the cursor alone. -/
def mark (pmm : Pmm) (page : Nat) : Pmm :=
  { pmm with
    bitmap := fun query =>
      if query = page / 8 then pmm.bitmap (page / 8) ||| (1#8 <<< (page % 8))
      else pmm.bitmap query }

/-- Number of the page at an address, in a variable of `width` bits. -/
def pageNumber (width address : Nat) : Nat :=
  (address - bitmapBase) / pageSize % 2 ^ width

/-- Mark the pages at `address` and at every further page size, with `remaining`
steps left.  Addresses below the bitmap are passed over, and the walk ends at
the first one above it. -/
def markPages (width : Nat) (pmm : Pmm) (address : Nat) : Nat → Pmm
  | 0 => pmm
  | remaining + 1 =>
      if address < bitmapBase then
        markPages width pmm (address + pageSize) remaining
      else if pageNumber width address ≥ bitmapSize * 8 then pmm
      else markPages width (pmm.mark (pageNumber width address)) (address + pageSize) remaining

/-- Steps of one page from `start` until `stop` is reached. -/
def stepsTo (start stop : Nat) : Nat := (stop - start + (pageSize - 1)) / pageSize

/-- `pmm_reserve_range`: mark the pages of a range, rounded outward to page
boundaries in 64-bit arithmetic. -/
def reserveRange (pmm : Pmm) (address length : Nat) : Pmm :=
  let start := address / pageSize * pageSize
  let stop := (address + length + (pageSize - 1)) % 2 ^ 64 / pageSize * pageSize
  markPages 64 pmm start (stepsTo start stop)

/-- The walk of `pmm_init` over the kernel image.  It does not end at a page
above the bitmap. -/
def markKernel (pmm : Pmm) (address : Nat) : Nat → Pmm
  | 0 => pmm
  | remaining + 1 =>
      let page := pageNumber 32 address
      markKernel (if page < bitmapSize * 8 then pmm.mark page else pmm)
        (address + pageSize) remaining

/-- The walk of `pmm_init` over one region of the memory map. -/
def markRegion (pmm : Pmm) (region : MemMapEntry) : Pmm :=
  if region.type = multibootMemoryAvailable then pmm
  else
    let stop := region.base + region.length
    if stop < region.base then pmm
    else markPages 32 pmm region.base.toNat (stepsTo region.base.toNat stop.toNat)

/-- `pmm_init`, for a kernel image that ends at `kernelEnd`.  The cursor stays
where it was. -/
def pmmInit (pmm : Pmm) (map : MemoryMap) (kernelEnd : Nat) : Pmm :=
  let cleared : Pmm := { pmm with bitmap := fun _ => 0#8 }
  let kernel := cleared.markKernel bitmapBase (stepsTo bitmapBase kernelEnd)
  map.regions.foldl markRegion kernel

/-- The address is one of a page that the bitmap has a bit for. -/
def IsPage (address : Nat) : Prop :=
  ∃ page < bitmapSize * 8, address = bitmapBase + page * pageSize

variable {pmm : Pmm} {address query : Nat}

theorem available_iff :
    pmm.Available query ↔ ∃ page < bitmapSize * 8, query = bitmapBase + page * pageSize ∧
      (pmm.bitmap (page / 8)).getLsbD (page % 8) = false := by
  constructor
  · rintro ⟨byte, bit, byteLt, bitLt, rfl, clear⟩
    refine ⟨byte * 8 + bit, by omega, rfl, ?_⟩
    rw [show (byte * 8 + bit) / 8 = byte by omega, show (byte * 8 + bit) % 8 = bit by omega]
    exact clear
  · rintro ⟨page, pageLt, rfl, clear⟩
    refine ⟨page / 8, page % 8, by omega, Nat.mod_lt _ (by omega), ?_, clear⟩
    rw [pageAt, Nat.div_add_mod' page 8]

theorem Available.isPage (free : pmm.Available query) : IsPage query := by
  obtain ⟨page, pageLt, same, -⟩ := available_iff.mp free
  exact ⟨page, pageLt, same⟩

theorem IsPage.pos (isPage : IsPage query) : 0 < query := by
  obtain ⟨page, -, rfl⟩ := isPage
  simp only [bitmapBase]
  omega

/-- Marking a page makes exactly that page unavailable. -/
theorem available_mark {page : Nat} (pageLt : page < bitmapSize * 8) :
    (pmm.mark page).Available query ↔
      pmm.Available query ∧ query ≠ bitmapBase + page * pageSize := by
  have byteLt : page / 8 < bitmapSize := by omega
  have taken := @available_take pmm (page / 8) (page % 8) byteLt (Nat.mod_lt _ (by omega)) query
  rw [pageAt, Nat.div_add_mod' page 8] at taken
  exact taken

theorem getLsbD_clear (byte : BitVec 8) {bit query : Nat} (bitLt : bit < 8) (queryLt : query < 8) :
    (byte &&& ~~~(1#8 <<< bit)).getLsbD query = (byte.getLsbD query && decide (query ≠ bit)) := by
  rw [BitVec.getLsbD_and]
  congr 1
  interval_cases bit <;> interval_cases query <;> rfl

theorem available_freePage (isPage : IsPage address) :
    (pmm.freePage address).Available query ↔ pmm.Available query ∨ query = address := by
  obtain ⟨page, pageLt, rfl⟩ := isPage
  have number : (bitmapBase + page * pageSize - bitmapBase) / pageSize % 2 ^ 32 = page := by
    simp only [bitmapBase, pageSize, bitmapSize] at *
    omega
  simp only [freePage, number, Nat.not_lt.mpr (Nat.le_add_right _ _), ↓reduceIte,
    Nat.not_le.mpr pageLt, ↓reduceDIte]
  split
  · next taken =>
      rw [available_iff, available_iff]
      constructor
      · rintro ⟨other, otherLt, rfl, clear⟩
        by_cases same : other = page
        · exact .inr (by rw [same])
        · refine .inl ⟨other, otherLt, rfl, ?_⟩
          by_cases sameByte : other / 8 = page / 8
          · have bits : other % 8 ≠ page % 8 := by omega
            simp only [sameByte, ↓reduceIte] at clear
            rw [getLsbD_clear _ (Nat.mod_lt _ (by omega)) (Nat.mod_lt _ (by omega))] at clear
            rw [sameByte]
            simpa [bits] using clear
          · simpa only [sameByte, ↓reduceIte] using clear
      rintro (⟨other, otherLt, rfl, clear⟩ | rfl)
      · refine ⟨other, otherLt, rfl, ?_⟩
        by_cases sameByte : other / 8 = page / 8
        · rw [sameByte] at clear
          simp only [sameByte, ↓reduceIte]
          rw [getLsbD_clear _ (Nat.mod_lt _ (by omega)) (Nat.mod_lt _ (by omega)), clear,
            Bool.false_and]
        · simpa only [sameByte, ↓reduceIte] using clear
      · refine ⟨page, pageLt, rfl, ?_⟩
        simp only [↓reduceIte]
        rw [getLsbD_clear _ (Nat.mod_lt _ (by omega)) (Nat.mod_lt _ (by omega))]
        simp
  · next clear =>
      constructor
      · exact .inl
      · rintro (free | rfl)
        · exact free
        · exact available_iff.mpr ⟨page, pageLt, rfl, by simpa using clear⟩

theorem freePage_zero : pmm.freePage 0 = pmm := by
  simp [freePage]

/-- Address at which a walk from `address` enters the bitmap: the counter of the
walk modulo what its page number loses. -/
def entersAt (width address : Nat) : Nat :=
  if address < bitmapBase then address
  else bitmapBase + pageNumber width address * pageSize + address % pageSize

theorem pageNumber_next {width : Nat} (wide : 32 ≤ width) (above : bitmapBase ≤ address)
    (inside : pageNumber width address < bitmapSize * 8) :
    pageNumber width (address + pageSize) = pageNumber width address + 1 := by
  have room : 2 ^ 32 ≤ 2 ^ width := Nat.pow_le_pow_right (by omega) wide
  have next : (address + pageSize - bitmapBase) / pageSize =
      (address - bitmapBase) / pageSize + 1 := by
    simp only [pageSize, bitmapBase] at *
    omega
  simp only [pageNumber, next, bitmapSize] at *
  have one : 1 % 2 ^ width = 1 := Nat.mod_eq_of_lt (by omega)
  rw [Nat.add_mod, one]
  exact Nat.mod_eq_of_lt (by omega)

/-- As long as the walk has not left the bitmap, its next step is one page on. -/
theorem entersAt_next {width : Nat} (wide : 32 ≤ width)
    (inside : bitmapBase ≤ address → pageNumber width address < bitmapSize * 8) :
    entersAt width (address + pageSize) = entersAt width address + pageSize := by
  by_cases below : address < bitmapBase
  · have first : bitmapBase ≤ address + pageSize → pageNumber width (address + pageSize) = 0 := by
      intro entered
      rw [pageNumber, Nat.div_eq_of_lt (by simp only [pageSize, bitmapBase] at *; omega),
        Nat.zero_mod]
    simp only [entersAt, below, ↓reduceIte]
    split
    · rfl
    · next entered =>
        rw [first (Nat.not_lt.mp entered)]
        simp only [pageSize, bitmapBase] at *
        omega
  · have later : ¬ address + pageSize < bitmapBase := by omega
    simp only [entersAt, below, later, ↓reduceIte,
      pageNumber_next wide (Nat.not_lt.mp below) (inside (Nat.not_lt.mp below))]
    simp only [pageSize]
    omega

theorem entersAt_mod (width address : Nat) :
    entersAt width address % pageSize = address % pageSize := by
  rw [entersAt]
  split
  · rfl
  · generalize pageNumber width address = page
    simp only [bitmapBase, pageSize]
    omega

/-- A walk makes those pages unavailable that one of its steps falls into. -/
theorem available_markPages {width : Nat} (wide : 32 ≤ width) (remaining : Nat) :
    (markPages width pmm address remaining).Available query ↔
      pmm.Available query ∧ ¬ (entersAt width address ≤ query + address % pageSize ∧
        query + address % pageSize < entersAt width address + remaining * pageSize) := by
  by_cases isPage : IsPage query
  · obtain ⟨page, pageLt, rfl⟩ := isPage
    induction remaining generalizing pmm address with
    | zero =>
        simp only [markPages, Nat.zero_mul, Nat.add_zero]
        exact ⟨fun free => ⟨free, by omega⟩, fun kept => kept.1⟩
    | succ remaining ih =>
    have residue : (address + pageSize) % pageSize = address % pageSize :=
      Nat.add_mod_right _ _
    have small : address % pageSize < pageSize := Nat.mod_lt _ (by decide)
    simp only [markPages]
    split
    · next below =>
        have enters : entersAt width address = address := if_pos below
        rw [ih, residue, entersAt_next wide (by omega), enters]
        refine and_congr_right fun _ => not_congr ?_
        simp only [pageSize, bitmapBase] at *
        omega
    next above =>
    have enters : entersAt width address =
        bitmapBase + pageNumber width address * pageSize + address % pageSize :=
      if_neg above
    split
    · next outside =>
        refine ⟨fun free => ⟨free, ?_⟩, fun kept => kept.1⟩
        rw [enters]
        simp only [pageSize, bitmapBase, bitmapSize] at *
        omega
    · next inside =>
        rw [ih, residue, entersAt_next wide (by omega),
          available_mark (Nat.not_le.mp inside), and_assoc, enters]
        refine and_congr_right fun _ => ?_
        simp only [pageSize, bitmapBase, bitmapSize] at *
        omega
  · constructor
    · intro free
      exact (isPage free.isPage).elim
    · rintro ⟨free, -⟩
      exact (isPage free.isPage).elim

/-- A reservation whose end does not overflow makes the pages of the range
unavailable, rounded outward to page boundaries. -/
theorem available_reserveRange {length : Nat}
    (fits : address + length + (pageSize - 1) < 2 ^ 64) :
    (pmm.reserveRange address length).Available query ↔
      pmm.Available query ∧ ¬ (address < query + pageSize ∧ query < address + length) := by
  by_cases isPage : IsPage query
  · obtain ⟨page, pageLt, rfl⟩ := isPage
    have enters : entersAt 64 (address / pageSize * pageSize) = address / pageSize * pageSize := by
      rw [entersAt]
      split
      · rfl
      · rw [pageNumber]
        simp only [pageSize, bitmapBase] at *
        omega
    rw [reserveRange, available_markPages (by decide), enters, Nat.mod_eq_of_lt fits]
    refine and_congr_right fun _ => not_congr ?_
    simp only [stepsTo, pageSize, bitmapBase] at *
    omega
  · constructor
    · intro free
      exact (isPage free.isPage).elim
    · rintro ⟨free, -⟩
      exact (isPage free.isPage).elim

theorem pageAddress_le {page first : Nat} :
    bitmapBase + first * pageSize ≤ bitmapBase + page * pageSize ↔ first ≤ page := by
  rw [Nat.add_le_add_iff_left]
  exact Nat.mul_le_mul_right_iff (by decide)

/-- The walk over the kernel image, from its page `first` on, when the pages
before are marked already. -/
theorem available_markKernel (remaining : Nat) {first : Nat}
    (before : ∀ query, pmm.Available query → bitmapBase + first * pageSize ≤ query) :
    (markKernel pmm (bitmapBase + first * pageSize) remaining).Available query ↔
      pmm.Available query ∧ bitmapBase + (first + remaining) * pageSize ≤ query := by
  induction remaining generalizing pmm first with
  | zero => exact ⟨fun free => ⟨free, before _ free⟩, fun kept => kept.1⟩
  | succ remaining ih =>
  have number : pageNumber 32 (bitmapBase + first * pageSize) = first % 2 ^ 32 := by
    rw [pageNumber, Nat.add_sub_cancel_left, Nat.mul_div_cancel _ (by decide)]
  have next : bitmapBase + first * pageSize + pageSize =
      bitmapBase + (first + 1) * pageSize := by
    simp only [pageSize]
    omega
  simp only [markKernel, number, next]
  split
  · next inside =>
      -- Past 2^32 pages the number repeats, and names a page that is marked already.
      rw [ih]
      · rw [available_mark inside, and_assoc]
        refine and_congr_right fun free => ?_
        have reached := before _ free
        simp only [pageSize, bitmapBase, bitmapSize] at inside reached ⊢
        omega
      · intro query free
        obtain ⟨free, different⟩ := (available_mark inside).mp free
        have reached := before _ free
        obtain ⟨page, pageLt, rfl⟩ := free.isPage
        rw [pageAddress_le] at reached ⊢
        have other : page ≠ first % 2 ^ 32 := fun same => different (by rw [same])
        simp only [bitmapSize] at inside pageLt
        omega
  next outside =>
  rw [ih]
  · refine and_congr_right fun _ => ?_
    rw [Nat.add_right_comm first 1, Nat.add_assoc first]
  · intro query free
    have reached := before _ free
    obtain ⟨page, pageLt, rfl⟩ := free.isPage
    rw [pageAddress_le] at reached ⊢
    simp only [bitmapSize] at outside pageLt
    omega

end Pmm

namespace MemMapEntry

/-- The walk of `pmm_init` over a region that is not available falls into the
page at `address`.  The walk starts at the base of the region, which need not be
the start of a page, and it counts pages in 32 bits. -/
def Hides (region : MemMapEntry) (address : Nat) : Prop :=
  region.type ≠ multibootMemoryAvailable ∧
    region.base.toNat + region.length.toNat < 2 ^ 64 ∧
    Pmm.entersAt 32 region.base.toNat ≤ address + region.base.toNat % pageSize ∧
    address + region.base.toNat % pageSize <
      Pmm.entersAt 32 region.base.toNat + region.length.toNat

/-- The page at `address` lies entirely inside a region of available memory. -/
def Provides (region : MemMapEntry) (address : Nat) : Prop :=
  region.type = multibootMemoryAvailable ∧ region.base.toNat ≤ address ∧
    address + pageSize ≤ region.base.toNat + region.length.toNat

end MemMapEntry

namespace Pmm

variable {pmm : Pmm} {query : Nat}

theorem available_markRegion (region : MemMapEntry) :
    (pmm.markRegion region).Available query ↔
      pmm.Available query ∧ ¬ region.Hides query := by
  have kept (away : ¬ region.Hides query) :
      pmm.Available query ↔ pmm.Available query ∧ ¬ region.Hides query :=
    ⟨fun free => ⟨free, away⟩, fun both => both.1⟩
  simp only [markRegion]
  split
  · next available => exact kept fun hides => hides.1 available
  next hidden =>
  have sum : (region.base + region.length).toNat =
      (region.base.toNat + region.length.toNat) % 2 ^ 64 := UInt64.toNat_add _ _
  have baseLt := region.base.toNat_lt
  have lengthLt := region.length.toNat_lt
  split
  · next wraps =>
      refine kept fun hides => ?_
      have fits := hides.2.1
      rw [UInt64.lt_iff_toNat_lt, sum, Nat.mod_eq_of_lt fits] at wraps
      omega
  next stays =>
  rw [UInt64.lt_iff_toNat_lt, sum] at stays
  have fits : region.base.toNat + region.length.toNat < 2 ^ 64 := by omega
  rw [available_markPages (by decide), sum, Nat.mod_eq_of_lt fits]
  refine and_congr_right fun free => not_congr ?_
  obtain ⟨page, pageLt, rfl⟩ := free.isPage
  simp only [MemMapEntry.Hides, ne_eq, hidden, not_false_eq_true, fits, true_and]
  have residue := entersAt_mod 32 region.base.toNat
  generalize entersAt 32 region.base.toNat = enters at residue ⊢
  simp only [stepsTo, pageSize, bitmapBase, Nat.add_sub_cancel_left] at residue ⊢
  omega

theorem available_markRegions (regions : List MemMapEntry) :
    (regions.foldl markRegion pmm).Available query ↔
      pmm.Available query ∧ ∀ region ∈ regions, ¬ region.Hides query := by
  induction regions generalizing pmm with
  | nil => simp
  | cons region regions ih =>
      rw [List.foldl_cons, ih, available_markRegion, List.forall_mem_cons, and_assoc]

/-- What the allocator may hand out after the boot. -/
theorem available_pmmInit (pmm : Pmm) (map : MemoryMap) (kernelEnd query : Nat) :
    (pmm.pmmInit map kernelEnd).Available query ↔
      IsPage query ∧ kernelEnd ≤ query ∧ ∀ region ∈ map.regions, ¬ region.Hides query := by
  let cleared : Pmm := { pmm with bitmap := fun _ => 0#8 }
  have clear : cleared.Available query ↔ IsPage query := by
    rw [available_iff]
    simp [cleared, IsPage]
  have kernel : (cleared.markKernel bitmapBase (stepsTo bitmapBase kernelEnd)).Available query ↔
      IsPage query ∧ kernelEnd ≤ query := by
    have walk := @available_markKernel cleared query (stepsTo bitmapBase kernelEnd) 0
      fun other free => by
        obtain ⟨page, -, rfl⟩ := free.isPage
        exact pageAddress_le.mpr (Nat.zero_le page)
    rw [Nat.zero_mul, Nat.add_zero, Nat.zero_add] at walk
    rw [walk, clear]
    refine and_congr_right ?_
    rintro ⟨page, -, rfl⟩
    simp only [stepsTo, pageSize, bitmapBase]
    omega
  rw [← and_assoc, ← kernel, pmmInit]
  exact available_markRegions map.regions

end Pmm

end Charis.Memory
