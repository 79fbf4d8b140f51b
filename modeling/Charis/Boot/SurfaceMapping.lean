import Charis.Boot.Framebuffer
import Charis.Memory.MemoryInit

/-!
# The surface in memory

`fb_init` maps the surface page by page into a window of the kernel, and pixels are drawn through
that window.  Where a pixel lands depends on the base of the surface, of which the pages only keep
the page number, and on the width, whose product with the size of a pixel is taken in 32 bits.
-/

namespace Charis.Boot

open Charis.Lib
open Charis.Memory (Machine Entry Translation WellFormed Replaces Silent Covered mapPage leafEntry
  hardwareWalk pageView Canonical)
open Charis.Memory.Entry

/-- The flags of the pages of the surface: present, writable and not cached. -/
def surfaceFlags : Entry := 0x13#64

/-- `vmm_map_page` as `fb_init` calls it. -/
def mapWindow (machine : Machine) (virt phys : Nat) : Bool × Machine :=
  mapPage machine virt phys surfaceFlags

/-- The rows of a rectangle in `fb_fill_rect`. -/
def fillRow (fb : Framebuffer) (argb x w : Nat) (memory : ByteMemory) (py : Nat) : ByteMemory :=
  (List.range w).foldl (fun memory col => fbPutPixel fb memory (x + col) py argb) memory

/-- `fb_fill_rect`. -/
def fbFillRect (fb : Framebuffer) (memory : ByteMemory) (x y w h argb : Nat) : ByteMemory :=
  if fb.initialized = false ∨ argb = fbTransparent then memory
  else if fb.width ≤ x ∨ fb.height ≤ y ∨ w = 0 ∨ h = 0 then memory
  else
    let w := if fb.width - x < w then fb.width - x else w
    let h := if fb.height - y < h then fb.height - y else h
    (List.range h).foldl (fun memory row => fillRow fb argb x w memory (y + row)) memory

/-- Where a store to a byte goes in physical memory. -/
def physicalByte (machine : Machine) (virt : Nat) : Option Nat :=
  match hardwareWalk machine.memory machine.cr3 virt with
  | some translation =>
      if translation.writable then some (translation.frame + virt % pageSize) else none
  | none => none

/-- A page of the window. -/
def windowPage (j : Nat) : Nat := fbVirtBase + j * pageSize

/-- Drawing stays in the pages that `fb_init` maps, and every byte of a pixel is the one of the
surface that the boot information describes. -/
structure DrawsInPlace (info : BootInfo) (fb : Framebuffer) (machine : Machine) : Prop where
  pixels : ∀ memory x y argb address,
    ¬(fbVirtBase ≤ address ∧ address < windowPage (surfacePages info)) →
      fbPutPixel fb memory x y argb address = memory address
  rectangles : ∀ memory x y w h argb address,
    ¬(fbVirtBase ≤ address ∧ address < windowPage (surfacePages info)) →
      fbFillRect fb memory x y w h argb address = memory address
  placed : ∀ x y, x < fb.width → y < fb.height → ∀ k < fb.bpp / 8,
    physicalByte machine (pixelAddress fb x y + k) =
      some (info.framebufferAddr + y * info.framebufferPitch +
        x * (info.framebufferBpp / 8) + k)

/-- What `fb_init` finds at boot: a tree of tables in which the window is not mapped. -/
structure WindowReady (machine : Machine) : Prop where
  valid : WellFormed machine machine.cr3
  nonzero : machine.cr3 ≠ 0
  absent : ∀ j < 2 ^ 16, hardwareWalk machine.memory machine.cr3 (windowPage j) = none

/-- The processor reads 40 bits of a page number from an entry. -/
theorem frame_leafEntry_mod {phys : Nat} {flags : Entry} (aligned : phys % 4096 = 0) :
    frame (leafEntry phys flags) = phys % 2 ^ 52 := by
  have small : phys % 2 ^ 52 < 2 ^ 52 := Nat.mod_lt _ (by decide)
  have low : frame (leafEntry (phys % 2 ^ 52) flags) = phys % 2 ^ 52 := by
    rw [Memory.frame_leafEntry small]
    omega
  rw [← low]
  apply congrArg BitVec.toNat
  apply BitVec.eq_of_getLsbD_eq
  intro bit below
  rw [BitVec.getLsbD_and, BitVec.getLsbD_and, getLsbD_frameMask]
  by_cases inside : 12 ≤ bit ∧ bit < 52
  · have aligned' : phys % 2 ^ 52 % 4096 = 0 := by
      rw [Nat.mod_mod_of_dvd phys (by decide)]
      exact aligned
    rw [Memory.leafEntry_eq, Memory.leafEntry_eq,
      Nat.div_mul_cancel (Nat.dvd_of_mod_eq_zero aligned),
      Nat.div_mul_cancel (Nat.dvd_of_mod_eq_zero aligned')]
    simp only [BitVec.getLsbD_or, BitVec.getLsbD_ofNat, Nat.testBit_mod_two_pow, inside.2,
      decide_true, Bool.true_and]
  · rw [decide_eq_false inside, Bool.and_false, Bool.and_false]

section Pages

variable {machine machine' : Machine} {root : Nat}

theorem canonical_windowPage {j : Nat} (small : j < 2 ^ 16) : Canonical (windowPage j) := by
  rw [Canonical, windowPage]
  simp only [pageSize, fbVirtBase]
  omega

/-- Pages of the window have different places in the tree. -/
theorem windowPage_position {j k : Nat} (smallJ : j < 2 ^ 16) (smallK : k < 2 ^ 16) :
    (Memory.tablePath (windowPage k) =
        [Memory.pml4Index (windowPage j), Memory.pdptIndex (windowPage j),
          Memory.pdIndex (windowPage j)] ∧
      Memory.ptIndex (windowPage k) = Memory.ptIndex (windowPage j)) ↔ j = k := by
  simp only [Memory.tablePath, List.cons.injEq, and_true, Memory.pml4Index, Memory.pdptIndex,
    Memory.pdIndex, Memory.ptIndex, Fin.ext_iff, Fin.val_ofNat, windowPage, pageSize, fbVirtBase]
  omega

theorem walk_replaced {j k : Nat} {result : Option Translation} (valid : WellFormed machine root)
    (replaced : Replaces machine machine' root (windowPage k) result) (smallJ : j < 2 ^ 16)
    (smallK : k < 2 ^ 16) :
    hardwareWalk machine'.memory root (windowPage j) =
      if j = k then result else hardwareWalk machine.memory root (windowPage j) := by
  rw [replaced.wellFormed.hardwareWalk_eq (canonical_windowPage smallJ),
    valid.hardwareWalk_eq (canonical_windowPage smallJ), Memory.view, replaced.view_eq]
  by_cases same : j = k
  · rw [if_pos ((windowPage_position smallJ smallK).mpr same), if_pos same]
  · rw [if_neg (fun here => same ((windowPage_position smallJ smallK).mp here)), if_neg same]
    rfl

theorem getOrCreateTable_cr3 (machine : Machine) (parent : Nat) (index : Fin 512)
    (flags : Entry) : (Memory.getOrCreateTable machine parent index flags).2.cr3 = machine.cr3 := by
  simp only [Memory.getOrCreateTable]
  split
  · rfl
  · split
    · rfl
    · rfl

theorem mapPage_cr3 (machine : Machine) (virt phys : Nat) (flags : Entry) :
    (mapPage machine virt phys flags).2.cr3 = machine.cr3 := by
  have step (machine : Machine) (parent : Nat) (index : Fin 512) {ok : Bool} {machine' : Machine}
      (called : Memory.getOrCreateTable machine parent index 0 = (ok, machine')) :
      machine'.cr3 = machine.cr3 := by
    have same := getOrCreateTable_cr3 machine parent index 0
    rwa [called] at same
  simp only [mapPage]
  split
  · next first => exact step _ _ _ first
  · next first =>
      split
      · next second => exact (step _ _ _ second).trans (step _ _ _ first)
      · next second =>
          have same := (step _ _ _ second).trans (step _ _ _ first)
          split
          · next third => exact (step _ _ _ third).trans same
          · next third => exact (step _ _ _ third).trans same

end Pages

section Surface

variable {machine machine' : Machine} {addr : Nat}

/-- The page of the surface that `fb_init` puts behind a page of the window. -/
def surfaceFrame (addr j : Nat) : Nat := (addr + j * pageSize) % 2 ^ 64 / pageSize * pageSize

/-- A page of the window leads to its page of the surface. -/
def Shown (machine : Machine) (root addr j : Nat) : Prop :=
  ∃ translation, hardwareWalk machine.memory root (windowPage j) = some translation ∧
    translation.frame = surfaceFrame addr j % 2 ^ 52 ∧ translation.writable = true

theorem shown_leafEntry (addr j : Nat) :
    ∃ translation, pageView (leafEntry (surfaceFrame addr j) surfaceFlags) = some translation ∧
      translation.frame = surfaceFrame addr j % 2 ^ 52 ∧ translation.writable = true := by
  rw [pageView, if_pos Memory.present_leafEntry]
  refine ⟨_, rfl, ?_, ?_⟩
  · exact frame_leafEntry_mod (Nat.mul_mod_left _ _)
  · rw [Memory.combine, List.all_cons, List.all_nil, Bool.and_true, writable,
      Memory.getLsbD_leafEntry_of_low (by decide)]
    rfl

/-- One page is mapped, and the other pages of the window stay as they are. -/
theorem mapWindow_spec {k : Nat} (valid : WellFormed machine machine.cr3)
    (nonzero : machine.cr3 ≠ 0) (small : k < 2 ^ 16)
    (absent : hardwareWalk machine.memory machine.cr3 (windowPage k) = none)
    (mapped : mapWindow machine (windowPage k) (surfaceFrame addr k) = (true, machine')) :
    machine'.cr3 = machine.cr3 ∧ WellFormed machine' machine.cr3 ∧
      Shown machine' machine.cr3 addr k ∧
      ∀ j < 2 ^ 16, j ≠ k → hardwareWalk machine'.memory machine.cr3 (windowPage j) =
        hardwareWalk machine.memory machine.cr3 (windowPage j) := by
  have uncovered := Memory.not_covered_of_absent valid (canonical_windowPage small) absent
  have root := mapPage_cr3 machine (windowPage k) (surfaceFrame addr k) surfaceFlags
  obtain ⟨-, outcome⟩ := @Memory.mapPage_spec machine (windowPage k) (surfaceFrame addr k)
    surfaceFlags valid nonzero ⟨uncovered, nofun⟩
  rw [mapWindow] at mapped
  rw [mapped] at outcome root
  rcases outcome with ⟨failed, -⟩ | ⟨-, replaced⟩
  · cases failed
  · refine ⟨root, replaced.wellFormed, ?_, ?_⟩
    · rw [Shown, walk_replaced valid replaced small small, if_pos rfl]
      exact shown_leafEntry addr k
    · intro j smallJ apart
      rw [walk_replaced valid replaced smallJ small, if_neg apart]

/-- After the loop all of its pages are shown. -/
theorem mapSurface_spec {remaining i : Nat} (valid : WellFormed machine machine.cr3)
    (nonzero : machine.cr3 ≠ 0) (fits : i + remaining ≤ 2 ^ 16)
    (absent : ∀ j, i ≤ j → j < i + remaining →
      hardwareWalk machine.memory machine.cr3 (windowPage j) = none)
    (before : ∀ j < i, Shown machine machine.cr3 addr j)
    (mapped : mapSurface mapWindow addr remaining i machine = (true, machine')) :
    ∀ j < i + remaining, Shown machine' machine'.cr3 addr j := by
  induction remaining generalizing machine i with
  | zero =>
      cases mapped
      exact before
  | succ remaining ih =>
  have shift : i + (remaining + 1) = i + 1 + remaining := by omega
  rw [shift] at fits absent ⊢
  rw [mapSurface] at mapped
  split at mapped
  next state called =>
    have small : i < 2 ^ 16 := by omega
    obtain ⟨root, valid', shown, others⟩ := mapWindow_spec valid nonzero small
      (absent i (Nat.le_refl _) (by omega)) called
    rw [← root] at valid' shown others nonzero
    apply ih valid' nonzero (by omega) _ _ mapped
    · intro j above below
      rw [others j (by omega) (by omega), root]
      exact absent j (by omega) (by omega)
    · intro j below
      by_cases last : j = i
      · rw [last]
        exact shown
      · rw [Shown, others j (by omega) last, root]
        exact before j (by omega)
  next => cases mapped

end Surface

/-! ## Drawing -/

section Drawing

variable {fb : Framebuffer} {low high : Nat}

/-- Every pixel lies in a range of addresses. -/
def PixelsIn (fb : Framebuffer) (low high : Nat) : Prop :=
  ∀ x y, x < fb.width → y < fb.height →
    low ≤ pixelAddress fb x y ∧ pixelAddress fb x y + fb.bpp / 8 ≤ high

theorem fbPutPixel_frame (inside : PixelsIn fb low high) (memory : ByteMemory) (x y argb : Nat)
    {address : Nat} (outside : ¬(low ≤ address ∧ address < high)) :
    fbPutPixel fb memory x y argb address = memory address := by
  rw [fbPutPixel]
  split
  · rfl
  split
  · rfl
  next visible =>
  split
  · rfl
  · rw [not_or, Nat.not_le, Nat.not_le] at visible
    have place := inside x y visible.1 visible.2
    apply ByteMemory.writeLE_of_outside
    omega

/-- What every step of a loop keeps, the loop keeps. -/
theorem foldl_frame {draw : ByteMemory → Nat → ByteMemory} {address : Nat}
    (keeps : ∀ memory k, draw memory k address = memory address) (steps : List Nat)
    (memory : ByteMemory) : steps.foldl draw memory address = memory address := by
  induction steps generalizing memory with
  | nil => rfl
  | cons k steps ih =>
      rw [List.foldl_cons, ih]
      exact keeps memory k

theorem fbFillRect_frame (inside : PixelsIn fb low high) (memory : ByteMemory)
    (x y w h argb : Nat) {address : Nat} (outside : ¬(low ≤ address ∧ address < high)) :
    fbFillRect fb memory x y w h argb address = memory address := by
  rw [fbFillRect]
  split
  · rfl
  split
  · rfl
  · apply foldl_frame
    intro memory row
    apply foldl_frame
    intro memory col
    exact fbPutPixel_frame inside memory _ _ _ outside

end Drawing

section Placement

variable {info : BootInfo}

theorem pixel_offset {x y : Nat} (column : x < info.framebufferWidth)
    (row : y < info.framebufferHeight) :
    y * info.framebufferPitch + x * (info.framebufferBpp / 8) + info.framebufferBpp / 8 ≤
      (info.framebufferHeight - 1) * info.framebufferPitch +
        info.framebufferWidth * (info.framebufferBpp / 8) := by
  have rows : y * info.framebufferPitch ≤
      (info.framebufferHeight - 1) * info.framebufferPitch :=
    Nat.mul_le_mul_right _ (Nat.le_sub_one_of_lt row)
  have columns : (x + 1) * (info.framebufferBpp / 8) ≤
      info.framebufferWidth * (info.framebufferBpp / 8) := Nat.mul_le_mul_right _ column
  rw [Nat.add_mul, Nat.one_mul] at columns
  omega

/-- When drawing goes where it should: the base of the surface is that of a page, the bytes of a
row can be counted in 32 bits, and the surface ends where physical addresses end. -/
def InPlace (info : BootInfo) : Prop :=
  info.framebufferAddr % pageSize = 0 ∧
    info.framebufferWidth * (info.framebufferBpp / 8) < 2 ^ 32 ∧
    info.framebufferAddr + (info.framebufferHeight - 1) * info.framebufferPitch +
      info.framebufferWidth * (info.framebufferBpp / 8) ≤ 2 ^ 52

theorem physicalByte_window {machine : Machine}
    (shown : ∀ j < surfacePages info, Shown machine machine.cr3 info.framebufferAddr j)
    {offset : Nat} (inside : offset < surfacePages info * pageSize) :
    physicalByte machine (fbVirtBase + offset) =
      some (surfaceFrame info.framebufferAddr (offset / pageSize) % 2 ^ 52 +
        offset % pageSize) := by
  have below : offset / pageSize < surfacePages info := Nat.div_lt_of_lt_mul (by
    rwa [Nat.mul_comm] at inside)
  obtain ⟨translation, walk, frame, write⟩ := shown _ below
  have page : windowPage (offset / pageSize) =
      (fbVirtBase + offset) / Memory.pageSize * Memory.pageSize := by
    simp only [windowPage, pageSize, Memory.pageSize, fbVirtBase]
    omega
  rw [page, Memory.hardwareWalk_page] at walk
  have rest : (fbVirtBase + offset) % pageSize = offset % pageSize := by
    simp only [pageSize, fbVirtBase]
    omega
  rw [physicalByte, walk]
  dsimp only
  rw [if_pos write, frame, rest]

variable (usable : Usable info)

include usable

theorem surface_bytes
    (narrow : info.framebufferWidth * (info.framebufferBpp / 8) < 2 ^ 32) :
    (info.framebufferHeight - 1) * info.framebufferPitch +
        info.framebufferWidth * (info.framebufferBpp / 8) ≤
      info.framebufferPitch * info.framebufferHeight := by
  have scanline := usable.scanline
  rw [Nat.mod_eq_of_lt narrow] at scanline
  obtain ⟨rows, height⟩ := Nat.exists_eq_succ_of_ne_zero usable.height
  have last : info.framebufferPitch * (rows + 1) =
      rows * info.framebufferPitch + info.framebufferPitch := by
    ring
  rw [height, Nat.succ_eq_add_one, Nat.add_sub_cancel, last]
  omega

theorem pixelsIn_window
    (narrow : info.framebufferWidth * (info.framebufferBpp / 8) < 2 ^ 32) :
    PixelsIn (framebufferOf info) fbVirtBase (windowPage (surfacePages info)) := by
  intro x y column row
  have offset := pixel_offset column row
  have bytes := surface_bytes usable narrow
  simp only [pixelAddress, framebufferOf, windowPage, surfacePages, pageSize] at column row ⊢
  omega

theorem surfacePages_le : surfacePages info ≤ 2 ^ 16 := by
  have bytes := usable.bytes
  rw [surfacePages]
  simp only [pageSize]
  omega

theorem surfacePages_pos : 0 < surfacePages info := by
  have filled := usable.filled
  rw [surfacePages]
  simp only [pageSize]
  omega

/-- A row that is wider than 32 bits can tell is drawn beyond the window. -/
theorem narrow_of_drawsInPlace {machine : Machine}
    (draws : DrawsInPlace info (framebufferOf info) machine) :
    info.framebufferWidth * (info.framebufferBpp / 8) < 2 ^ 32 := by
  by_contra wide
  have size := usable.depth
  have pages := surfacePages_le usable
  obtain ⟨x, width⟩ := Nat.exists_eq_succ_of_ne_zero usable.width
  have columns : info.framebufferWidth * (info.framebufferBpp / 8) =
      x * (info.framebufferBpp / 8) + info.framebufferBpp / 8 := by
    rw [width, Nat.succ_mul]
  have column : x < (framebufferOf info).width := by
    simp only [framebufferOf]
    omega
  have row : 0 < (framebufferOf info).height := Nat.pos_of_ne_zero usable.height
  have behind : ¬(fbVirtBase ≤ pixelAddress (framebufferOf info) x 0 ∧
      pixelAddress (framebufferOf info) x 0 < windowPage (surfacePages info)) := by
    simp only [pixelAddress, framebufferOf, windowPage, pageSize]
    omega
  -- memory in which the byte is not yet what is drawn
  have same := draws.pixels (fun _ => ByteMemory.leByte (fbPack (framebufferOf info) 1) 0 + 1)
    x 0 1 _ behind
  have drawn : ∀ memory, fbPutPixel (framebufferOf info) memory x 0 1
      (pixelAddress (framebufferOf info) x 0) =
        ByteMemory.leByte (fbPack (framebufferOf info) 1) 0 := by
    intro memory
    have depth : 0 < (framebufferOf info).bpp / 8 := by
      simp only [framebufferOf]
      omega
    rw [fbPutPixel, if_neg (by simp [framebufferOf]), if_neg (by omega), if_neg (by decide),
      ByteMemory.writeLE, if_pos ⟨Nat.le_refl _, Nat.lt_add_of_pos_right depth⟩, Nat.sub_self]
  rw [drawn] at same
  exact absurd (left_eq_add.mp same) (by decide)

variable {machine : Machine}
  (shown : ∀ j < surfacePages info, Shown machine machine.cr3 info.framebufferAddr j)

include shown

theorem drawsInPlace_of_inPlace (place : InPlace info) :
    DrawsInPlace info (framebufferOf info) machine := by
  obtain ⟨aligned, narrow, low⟩ := place
  have inside := pixelsIn_window usable narrow
  have bytes := surface_bytes usable narrow
  constructor
  · intro memory x y argb address outside
    exact fbPutPixel_frame inside memory x y argb outside
  · intro memory x y w h argb address outside
    exact fbFillRect_frame inside memory x y w h argb outside
  · intro x y column row k byte
    have offset := pixel_offset column row
    simp only [framebufferOf] at column row byte
    rw [pixelAddress, Nat.add_assoc, Nat.add_assoc, physicalByte_window shown]
    · rw [surfaceFrame, Option.some_inj]
      simp only [framebufferOf, pageSize] at aligned byte ⊢
      omega
    · simp only [framebufferOf, surfacePages, pageSize] at byte ⊢
      omega

theorem inPlace_of_drawsInPlace (draws : DrawsInPlace info (framebufferOf info) machine) :
    InPlace info := by
  have size := usable.depth
  have narrow := narrow_of_drawsInPlace usable draws
  have bytes := surface_bytes usable narrow
  obtain ⟨x, width⟩ := Nat.exists_eq_succ_of_ne_zero usable.width
  obtain ⟨y, height⟩ := Nat.exists_eq_succ_of_ne_zero usable.height
  have columns : info.framebufferWidth * (info.framebufferBpp / 8) =
      x * (info.framebufferBpp / 8) + info.framebufferBpp / 8 := by
    rw [width, Nat.succ_mul]
  have rows : (info.framebufferHeight - 1) * info.framebufferPitch =
      y * info.framebufferPitch := by
    rw [height]
    rfl
  refine ⟨?_, narrow, ?_⟩
  · have first := draws.placed 0 0 (Nat.pos_of_ne_zero usable.width)
      (Nat.pos_of_ne_zero usable.height) 0 (by simp only [framebufferOf]; omega)
    rw [pixelAddress, Nat.zero_mul, Nat.zero_mul, Nat.add_zero, Nat.add_zero,
      ← Nat.add_zero fbVirtBase, physicalByte_window shown (Nat.mul_pos
        (surfacePages_pos usable) (by decide)), surfaceFrame, Option.some_inj] at first
    simp only [pageSize] at first ⊢
    omega
  · have last := draws.placed x y (by simp only [framebufferOf]; omega)
      (by simp only [framebufferOf]; omega) (info.framebufferBpp / 8 - 1)
      (by simp only [framebufferOf]; omega)
    rw [pixelAddress, Nat.add_assoc, Nat.add_assoc, physicalByte_window shown, surfaceFrame,
      Option.some_inj] at last
    · simp only [framebufferOf, pageSize] at last
      omega
    · simp only [framebufferOf, surfacePages, pageSize]
      omega

/-- Where the pages of the surface are shown in the window. -/
theorem drawsInPlace_iff_inPlace :
    DrawsInPlace info (framebufferOf info) machine ↔ InPlace info :=
  ⟨inPlace_of_drawsInPlace usable shown, drawsInPlace_of_inPlace usable shown⟩

end Placement

/-! ## The window at boot -/

section Boot

variable {machine machine' : Machine}

section Kernel

variable {virt phys : Nat} {flags : Entry} (valid : WellFormed machine machine.cr3)
  (nonzero : machine.cr3 ≠ 0) (canonical : Canonical virt) (closed : user flags = false)
  (absent : hardwareWalk machine.memory machine.cr3 virt = none)

include valid nonzero canonical closed absent

theorem mapPage_outcome :
    Silent machine (mapPage machine virt phys flags).2 machine.cr3 ∨
      Replaces machine (mapPage machine virt phys flags).2 machine.cr3 virt
        (pageView (leafEntry phys flags)) := by
  have uncovered := Memory.not_covered_of_absent valid canonical absent
  obtain ⟨-, outcome⟩ := @Memory.mapPage_spec machine virt phys flags valid nonzero
    ⟨uncovered, fun wanted => by rw [closed] at wanted; cases wanted⟩
  exact outcome.imp And.right And.right

/-- Mapping one page leaves the other ones as they are. -/
theorem mapPage_elsewhere {other : Nat} (canonical' : Canonical other)
    (apart : ¬(Memory.tablePath virt =
        [Memory.pml4Index other, Memory.pdptIndex other, Memory.pdIndex other] ∧
      Memory.ptIndex virt = Memory.ptIndex other)) :
    hardwareWalk (mapPage machine virt phys flags).2.memory machine.cr3 other =
      hardwareWalk machine.memory machine.cr3 other := by
  rcases @mapPage_outcome _ _ phys _ valid nonzero canonical closed absent with silent | replaced
  · rw [silent.wellFormed.hardwareWalk_eq canonical', valid.hardwareWalk_eq canonical']
    exact silent.view_eq _ _ _ _
  · rw [replaced.wellFormed.hardwareWalk_eq canonical', valid.hardwareWalk_eq canonical',
      Memory.view, replaced.view_eq, if_neg apart]
    rfl

theorem mapPage_wellFormed : WellFormed (mapPage machine virt phys flags).2 machine.cr3 := by
  rcases @mapPage_outcome _ _ phys _ valid nonzero canonical closed absent with silent | replaced
  · exact silent.wellFormed
  · exact replaced.wellFormed

end Kernel

/-- A page of the heap. -/
def heapPage (i : Nat) : Nat := Memory.heapStart + i * Memory.pageSize

theorem canonical_heapPage {i : Nat} (small : i < Memory.heapPages) : Canonical (heapPage i) := by
  simp only [Canonical, heapPage, Memory.heapStart, Memory.heapPages, Memory.pageSize] at small ⊢
  omega

theorem heapPage_position {i other : Nat} (small : i < Memory.heapPages)
    (elsewhere : (∃ j < 2 ^ 16, other = windowPage j) ∨
      ∃ j < Memory.heapPages, j ≠ i ∧ other = heapPage j) :
    ¬(Memory.tablePath (heapPage i) =
        [Memory.pml4Index other, Memory.pdptIndex other, Memory.pdIndex other] ∧
      Memory.ptIndex (heapPage i) = Memory.ptIndex other) := by
  rcases elsewhere with ⟨j, below, rfl⟩ | ⟨j, below, apart, rfl⟩ <;>
  · simp only [Memory.tablePath, List.cons.injEq, and_true, Memory.pml4Index, Memory.pdptIndex,
      Memory.pdIndex, Memory.ptIndex, Fin.ext_iff, Fin.val_ofNat, windowPage, heapPage, pageSize,
      Memory.pageSize, Memory.heapStart, Memory.heapPages, fbVirtBase] at small below ⊢
    omega

/-- Taking pages from the allocator does not change the tree. -/
theorem WindowReady.allocates {pmm : Memory.Pmm} (ready : WindowReady machine)
    (fewer : ∀ page, pmm.Available page → machine.pmm.Available page) :
    WindowReady { machine with pmm } where
  valid := ready.valid.elsewhere (fun _ _ _ _ => ByteMemory.AgreeOn.refl _ _ _)
    fun path table short reached free => ready.valid.owned path table short reached
      (fewer table free)
  nonzero := ready.nonzero
  absent := ready.absent

/-- The pages of the heap from one on are not mapped. -/
def HeapAbsent (machine : Machine) (i : Nat) : Prop :=
  ∀ j, i ≤ j → j < Memory.heapPages →
    hardwareWalk machine.memory machine.cr3 (heapPage j) = none

theorem mapPage_windowReady {i phys : Nat} {flags : Entry} (ready : WindowReady machine)
    (small : i < Memory.heapPages) (absent : HeapAbsent machine i)
    (closed : user flags = false) :
    WindowReady (mapPage machine (heapPage i) phys flags).2 ∧
      HeapAbsent (mapPage machine (heapPage i) phys flags).2 (i + 1) := by
  have root := mapPage_cr3 machine (heapPage i) phys flags
  have canonical := canonical_heapPage small
  have here := absent i (Nat.le_refl i) small
  refine ⟨⟨?_, ?_, ?_⟩, ?_⟩
  · rw [root]
    exact mapPage_wellFormed ready.valid ready.nonzero canonical closed here
  · rw [root]
    exact ready.nonzero
  · intro j below
    rw [root, mapPage_elsewhere ready.valid ready.nonzero canonical closed here
      (canonical_windowPage below) (heapPage_position small (.inl ⟨j, below, rfl⟩))]
    exact ready.absent j below
  · intro j above below
    rw [root, mapPage_elsewhere ready.valid ready.nonzero canonical closed here
      (canonical_heapPage below)
      (heapPage_position small (.inr ⟨j, below, by omega, rfl⟩))]
    exact absent j (by omega) below

theorem mapHeap_windowReady {remaining i : Nat} (ready : WindowReady machine)
    (fits : i + remaining ≤ Memory.heapPages) (absent : HeapAbsent machine i)
    (mapped : Memory.mapHeap machine (heapPage i) remaining = some machine') :
    WindowReady machine' := by
  induction remaining generalizing machine i with
  | zero =>
      cases mapped
      exact ready
  | succ remaining ih =>
  rw [Memory.mapHeap] at mapped
  dsimp only at mapped
  split at mapped
  · cases mapped
  · have taken := ready.allocates (Memory.allocPage_onlyTakes machine)
    have next : heapPage i + Memory.pageSize = heapPage (i + 1) := by
      rw [heapPage, heapPage, Nat.succ_mul, Nat.add_assoc]
    have step := @mapPage_windowReady _ i machine.pmm.allocPage.1 2#64 taken (by omega)
      absent rfl
    rw [next] at mapped
    exact ih step.1 (by omega) step.2 mapped

variable {memory : ByteMemory} {pml4 : Nat}

/-- Only the first entry of the root is used at boot. -/
theorem hardwareWalk_boot {virt : Nat} (aligned : pml4 % 4096 = 0)
    (high : Memory.pml4Index virt ≠ 0) :
    hardwareWalk (Memory.setupPageTables memory pml4) pml4 virt = none := by
  have unused : present (Memory.readEntry (Memory.setupPageTables memory pml4) pml4
      (Memory.pml4Index virt)) = false := by
    rw [Memory.readEntry_boot_empty memory aligned (.inl rfl) high]
    rfl
  rw [hardwareWalk, if_pos (.inr (.inl unused))]

theorem pml4Index_windowPage {j : Nat} (small : j < 2 ^ 16) :
    Memory.pml4Index (windowPage j) ≠ 0 := by
  simp only [ne_eq, Memory.pml4Index, Fin.ext_iff, Fin.val_ofNat, Fin.val_zero, windowPage,
    pageSize, fbVirtBase]
  omega

theorem pml4Index_heapPage {i : Nat} (small : i < Memory.heapPages) :
    Memory.pml4Index (heapPage i) ≠ 0 := by
  simp only [ne_eq, Memory.pml4Index, Fin.ext_iff, Fin.val_ofNat, Fin.val_zero, heapPage,
    Memory.pageSize, Memory.heapStart, Memory.heapPages] at small ⊢
  omega

/-- The boot tables map neither the window nor the heap. -/
theorem windowReady_boot (tables : machine.memory = Memory.setupPageTables memory machine.cr3)
    (aligned : machine.cr3 % 4096 = 0) (nonzero : machine.cr3 ≠ 0)
    (low : machine.cr3 + 12288 ≤ 2 ^ 32)
    (used : ∀ table ∈ [machine.cr3, machine.cr3 + 4096, machine.cr3 + 8192],
      ¬ machine.pmm.Available table) :
    WindowReady machine ∧ HeapAbsent machine 0 := by
  refine ⟨⟨?_, nonzero, ?_⟩, ?_⟩
  · exact (Memory.kernelSpace_boot aligned low tables used).toWellFormed
  · intro j below
    rw [tables]
    exact hardwareWalk_boot aligned (pml4Index_windowPage below)
  · intro j _ below
    rw [tables]
    exact hardwareWalk_boot aligned (pml4Index_heapPage below)

/-- `memory_init` gives `fb_init` a machine that does not use the window, if the boot tables are
in the image of the kernel. -/
theorem memoryInit_windowReady {report : Memory.BootReport} {kernelEnd fuel : Nat}
    (tables : machine.memory = Memory.setupPageTables memory machine.cr3)
    (aligned : machine.cr3 % 4096 = 0) (nonzero : machine.cr3 ≠ 0)
    (low : machine.cr3 + 12288 ≤ 2 ^ 32) (image : machine.cr3 + 12288 ≤ kernelEnd)
    (returns : Memory.memoryInit machine report kernelEnd fuel = some machine') :
    WindowReady machine' := by
  obtain ⟨reserved, reserves⟩ := Memory.exists_reserved returns
  rw [Memory.memoryInit_eq reserves] at returns
  have used : ∀ table ∈ [machine.cr3, machine.cr3 + 4096, machine.cr3 + 8192],
      ¬ reserved.Available table := by
    intro table member free
    have beyond := ((Memory.available_reserveMemory reserves).mp free).2
    apply beyond
    simp only [List.mem_cons, List.not_mem_nil, or_false] at member
    exact .inl (by omega)
  have start := @windowReady_boot { machine with pmm := reserved } memory tables aligned nonzero
    low used
  exact mapHeap_windowReady start.1 (by decide) start.2 returns

/-- The machine at the entry of the kernel. -/
def entryMachine : Machine :=
  ⟨Memory.setupPageTables (fun _ => 0) 0x101000, Memory.emptyPmm, 0x101000⟩

theorem memoryInit_entryMachine : ∃ machine',
    Memory.memoryInit entryMachine (Memory.reportKeeping 0x200000) 0x200000 0 =
      some machine' := by
  obtain ⟨reserved, reserves⟩ : ∃ reserved,
      Memory.reserveMemory entryMachine.pmm (Memory.reportKeeping 0x200000) 0x200000 0 =
        some reserved :=
    ⟨_, rfl⟩
  have plenty := @Memory.plenty_keeping 0x200000 reserved (by decide) reserves
  rw [Memory.memoryInit_eq reserves]
  exact Memory.mapHeap_returns plenty _

theorem memoryInit_windowReady_entry : ∃ machine',
    Memory.memoryInit entryMachine (Memory.reportKeeping 0x200000) 0x200000 0 =
        some machine' ∧ WindowReady machine' := by
  obtain ⟨machine', returns⟩ := memoryInit_entryMachine
  have root : entryMachine.cr3 = 0x101000 := rfl
  have tables : entryMachine.memory =
      Memory.setupPageTables (fun _ => 0) entryMachine.cr3 := by
    simp only [entryMachine]
  refine ⟨machine', returns, ?_⟩
  apply @memoryInit_windowReady entryMachine machine' _ _ _ _ tables _ _ _ _ returns
  · rw [root]
  all_goals
    rw [root]
    decide

theorem windowReady_bootMachine (memory : ByteMemory) :
    WindowReady (Memory.bootMachine memory) := by
  have root : (Memory.bootMachine memory).cr3 = 0x101000 := rfl
  apply (@windowReady_boot (Memory.bootMachine memory) memory rfl _ _ _ _).1
  · rw [root]
  · rw [root]
    decide
  · rw [root]
    decide
  · intro table member
    apply Memory.bootPmm_not_available
    simp only [List.mem_cons, List.not_mem_nil, or_false] at member
    omega

end Boot

section Init

variable {info : BootInfo} {fb fb' : Framebuffer} {machine machine' : Machine}

theorem fbInit_shown (ready : WindowReady machine)
    (succeeds : fbInit mapWindow info fb machine = (true, fb', machine')) :
    ∀ j < surfacePages info, Shown machine' machine'.cr3 info.framebufferAddr j := by
  obtain ⟨usable, mapped, -⟩ := fbInit_succeeds succeeds
  have pages := surfacePages_le usable
  have shown := mapSurface_spec ready.valid ready.nonzero (by omega)
    (fun j _ below => ready.absent j (by omega)) (fun j none => absurd none (Nat.not_lt_zero j))
    mapped
  rwa [Nat.zero_add] at shown

/-- Where `fb_init` succeeds on a machine that does not yet use the window, drawing goes where it
should if and only if the framebuffer is in place. -/
theorem fbInit_drawsInPlace_iff (ready : WindowReady machine)
    (succeeds : fbInit mapWindow info fb machine = (true, fb', machine')) :
    DrawsInPlace info fb' machine' ↔ InPlace info := by
  have shown := fbInit_shown ready succeeds
  obtain ⟨usable, -, rfl⟩ := fbInit_succeeds succeeds
  exact drawsInPlace_iff_inPlace usable shown

end Init

/-- A surface of one page. -/
def smallSurface (addr : Nat) : BootInfo :=
  { hasFramebuffer := true
    framebufferAddr := addr
    framebufferPitch := 64
    framebufferWidth := 16
    framebufferHeight := 16
    framebufferBpp := 32
    framebufferType := 1 }

theorem mapWindow_bootMachine (memory : ByteMemory) (phys : Nat) :
    (mapWindow (Memory.bootMachine memory) (windowPage 0) phys).1 = true := by
  have ready := windowReady_bootMachine memory
  have uncovered := Memory.not_covered_of_absent ready.valid
    (canonical_windowPage (by decide)) (ready.absent 0 (by decide))
  obtain ⟨machine', mapped, -⟩ := @Memory.mapPagePml4_succeeds (Memory.bootMachine memory) 12
    (Memory.bootMachine memory).cr3 ready.nonzero Memory.bootPmm_plenty (windowPage 0) phys
    surfaceFlags
  have same := (@Memory.mapPage_spec (Memory.bootMachine memory) (windowPage 0) phys surfaceFlags
    ready.valid ready.nonzero ⟨uncovered, nofun⟩).1
  rw [mapWindow, same, mapped]

/-- What `fb_init` leaves after boot. -/
def smallSurfaceMachine (addr : Nat) : Machine :=
  (mapWindow (Memory.bootMachine fun _ => 0) (windowPage 0) (surfaceFrame addr 0)).2

theorem mapSurface_small (addr : Nat) :
    mapSurface mapWindow addr 1 0 (Memory.bootMachine fun _ => 0) =
      (true, smallSurfaceMachine addr) := by
  have mapped := mapWindow_bootMachine (fun _ => 0) (surfaceFrame addr 0)
  rw [mapSurface]
  split
  next state called =>
    rw [mapSurface, smallSurfaceMachine, windowPage, surfaceFrame, called]
  next state called =>
    rw [windowPage, surfaceFrame, called] at mapped
    cases mapped

theorem fbInit_small (addr : Nat) :
    fbInit mapWindow (smallSurface addr) {} (Memory.bootMachine fun _ => 0) =
      (true, framebufferOf (smallSurface addr), smallSurfaceMachine addr) := by
  have mapped := mapSurface_small addr
  simp [fbInit, smallSurface, framebufferOf, pageSize, mapped]

theorem small_surface_in_place :
    DrawsInPlace (smallSurface 0xFD000000) (framebufferOf (smallSurface 0xFD000000))
      (smallSurfaceMachine 0xFD000000) :=
  (fbInit_drawsInPlace_iff (windowReady_bootMachine _) (fbInit_small 0xFD000000)).mpr
    ⟨rfl, by decide, by decide⟩

/-- A surface that begins inside a page is drawn from the beginning of the page. -/
theorem unaligned_surface_misplaced :
    ∃ fb machine, fbInit mapWindow (smallSurface 0xFD000800) {} (Memory.bootMachine fun _ => 0) =
        (true, fb, machine) ∧
      physicalByte machine (pixelAddress fb 0 0) = some 0xFD000000 ∧
      ¬DrawsInPlace (smallSurface 0xFD000800) fb machine := by
  have succeeds := fbInit_small 0xFD000800
  have shown := fbInit_shown (windowReady_bootMachine _) succeeds
  have first : physicalByte (smallSurfaceMachine 0xFD000800)
      (pixelAddress (framebufferOf (smallSurface 0xFD000800)) 0 0) = some 0xFD000000 :=
    physicalByte_window shown (by decide)
  refine ⟨_, _, succeeds, first, ?_⟩
  intro draws
  have wanted := draws.placed 0 0 (by decide) (by decide) 0 (by decide)
  rw [Nat.add_zero, first] at wanted
  cases wanted

end Charis.Boot
