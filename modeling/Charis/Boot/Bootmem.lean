import Charis.Lib.Reads
import Charis.Memory.PmmBoot

/-!
# The boot information

The boot loader leaves a block of memory with a list of tags, which is looked for at several
offsets: the first list that is coherent is taken.  Everything the kernel keeps of it is
copied out of the tags, apart from two strings, to which it keeps pointers.

Offsets are counted from the start of the block.  A loop that the code does not bound is given
fuel, and has no result when that runs out.
-/

namespace Charis.Boot

open Charis.Lib

abbrev multibootTagEnd : Nat := 0
abbrev multibootTagCmdline : Nat := 1
abbrev multibootTagBootLoaderName : Nat := 2
abbrev multibootTagMmap : Nat := 6
abbrev multibootTagFramebuffer : Nat := 8

/-- `MULTIBOOT_FRAMEBUFFER_TYPE_RGB`. -/
abbrev multibootFramebufferTypeRgb : Nat := 1

/-- The field `total_size` of the block. -/
def totalSize (block : ByteMemory) : Reads Nat := .number block 0 4

/-- `(size + 7) & ~7u`. -/
def paddedSize (size : Nat) : Nat := (size + 7) % 2 ^ 32 / 8 * 8

/-- The loop of `tags_walk_ok`. -/
def tagsWalkLoop (block : ByteMemory) (off budget : Nat) : (remaining used : Nat) → Reads Bool
  | 0, _ => pure false
  | remaining + 1, used => do
      let type ← .number block (off + used) 4
      let size ← .number block (off + used + 4) 4
      if type = multibootTagEnd then pure true
      else if size < 8 then pure false
      else if budget - used < size then pure false
      else
        let used := (used + paddedSize size) % 2 ^ 32
        if budget ≤ used then pure false else tagsWalkLoop block off budget remaining used

/-- `tags_walk_ok`. -/
def tagsWalkOk (block : ByteMemory) (off : Nat) : Reads Bool := do
  let total ← totalSize block
  if off < 8 ∨ total ≤ off then pure false
  else tagsWalkLoop block off (total - off) 256 0

export Charis.Memory (bootmemMaxRegions)

/-- `mem_map_entry_t`. -/
structure Region where
  base : Nat
  length : Nat
  type : Nat
  deriving DecidableEq, Repr

/-- A region with the tag and the offset that it was decoded from. -/
structure Recorded where
  region : Region
  tag : Nat
  size : Nat
  source : Nat
  deriving DecidableEq, Repr

/-- The loop of `bootmem_read_mmap` over the entries of a tag, of which as many more as
`remaining` fit into the table. -/
def readEntries (block : ByteMemory) (tag size entrySize : Nat) :
    (remaining entriesOff : Nat) → Reads (List Recorded)
  | 0, _ => pure []
  | remaining + 1, entriesOff => do
      if size < (entriesOff + entrySize) % 2 ^ 32 then pure []
      else
        let base ← .number block (tag + entriesOff) 8
        let length ← .number block (tag + entriesOff + 8) 8
        let type ← .number block (tag + entriesOff + 16) 4
        let rest ← readEntries block tag size entrySize remaining
          ((entriesOff + entrySize) % 2 ^ 32)
        pure (⟨⟨base, length, type⟩, tag, size, tag + entriesOff⟩ :: rest)

/-- The loop of `bootmem_read_mmap` over the tags. -/
def readMmapLoop (block : ByteMemory) (off budget : Nat) :
    (fuel used : Nat) → Reads (Option (List Recorded))
  | 0, _ => pure none
  | fuel + 1, used => do
      if budget < (used + 8) % 2 ^ 32 then pure (some [])
      else
        let type ← .number block (off + used) 4
        let size ← .number block (off + used + 4) 4
        if type = multibootTagEnd then pure (some [])
        else if type = multibootTagMmap ∧ 16 ≤ size then
          let entrySize ← .number block (off + used + 8) 4
          if entrySize < 24 then pure (some [])
          else
            let entries ← readEntries block (off + used) size entrySize bootmemMaxRegions 16
            pure (some entries)
        else if size < 8 then pure (some [])
        else readMmapLoop block off budget fuel ((used + paddedSize size) % 2 ^ 32)

/-- `bootmem_read_mmap`: the regions that are then in the table. -/
def bootmemReadMmap (block : ByteMemory) (fuel off : Nat) : Reads (Option (List Recorded)) := do
  let total ← totalSize block
  readMmapLoop block off (total - off) fuel 0

/-- `bootmem_display_t`, with the table of regions.  The strings are given by the offsets to
which the pointers point. -/
structure BootInfo where
  hasFramebuffer : Bool := false
  framebufferAddr : Nat := 0
  framebufferPitch : Nat := 0
  framebufferWidth : Nat := 0
  framebufferHeight : Nat := 0
  framebufferBpp : Nat := 0
  framebufferType : Nat := 0
  framebufferRed : Nat := 0
  framebufferGreen : Nat := 0
  framebufferBlue : Nat := 0
  cmdline : Option Nat := none
  bootLoader : Option Nat := none
  tagsOffset : Nat := 0
  regionCount : Nat := 0
  regions : List Recorded := []
  deriving DecidableEq, Repr

/-- The colour positions in a framebuffer tag, or the usual ones. -/
def readColours (block : ByteMemory) (tag size type : Nat) : Reads (Nat × Nat × Nat) := do
  if type = multibootFramebufferTypeRgb ∧ 35 ≤ size then
    let red ← .number block (tag + 32) 1
    let green ← .number block (tag + 33) 1
    let blue ← .number block (tag + 34) 1
    pure (red, green, blue)
  else pure (16, 8, 0)

/-- The case of a framebuffer tag. -/
def readFramebuffer (block : ByteMemory) (tag size : Nat) (info : BootInfo) :
    Reads BootInfo := do
  if size < 32 then pure info
  else
    let addr ← .number block (tag + 8) 8
    let pitch ← .number block (tag + 16) 4
    let width ← .number block (tag + 20) 4
    let height ← .number block (tag + 24) 4
    let bpp ← .number block (tag + 28) 1
    let type ← .number block (tag + 29) 1
    let (red, green, blue) ← readColours block tag size type
    pure
      { info with
        hasFramebuffer := true
        framebufferAddr := addr
        framebufferPitch := pitch
        framebufferWidth := width
        framebufferHeight := height
        framebufferBpp := bpp
        framebufferType := type
        framebufferRed := red
        framebufferGreen := green
        framebufferBlue := blue }

/-- What the last loop of `bootmem_parse_multiboot` does with a tag. -/
def readTag (block : ByteMemory) (fuel tagsOff tag type size : Nat) (info : BootInfo) :
    Reads (Option BootInfo) := do
  if type = multibootTagCmdline then
    pure (some (if 8 < size then { info with cmdline := some (tag + 8) } else info))
  else if type = multibootTagBootLoaderName then
    pure (some (if 8 < size then { info with bootLoader := some (tag + 8) } else info))
  else if type = multibootTagMmap then
    let regions ← bootmemReadMmap block fuel tagsOff
    pure (regions.map fun regions => { info with regions })
  else if type = multibootTagFramebuffer then
    let info ← readFramebuffer block tag size info
    pure (some info)
  else pure (some info)

/-- The last loop of `bootmem_parse_multiboot`. -/
def readTags (block : ByteMemory) (tagsOff budget : Nat) :
    (fuel used : Nat) → BootInfo → Reads (Option BootInfo)
  | 0, _, _ => pure none
  | fuel + 1, used, info => do
      if budget < (used + 8) % 2 ^ 32 then pure (some info)
      else
        let type ← .number block (tagsOff + used) 4
        let size ← .number block (tagsOff + used + 4) 4
        if type = multibootTagEnd then pure (some info)
        else
          match ← readTag block (fuel + 1) tagsOff (tagsOff + used) type size info with
          | none => pure none
          | some info =>
              if size < 8 then pure (some info)
              else readTags block tagsOff budget fuel ((used + paddedSize size) % 2 ^ 32) info

/-- The offsets at which the list of tags is looked for. -/
def candidates : List Nat := List.range' 8 14 4

/-- The first offset with a coherent list. -/
def findTags (block : ByteMemory) : List Nat → Reads (Option Nat)
  | [] => pure none
  | off :: rest => do
      if ← tagsWalkOk block off then pure (some off) else findTags block rest

/-- `bootmem_parse_multiboot`, from what the last call has left. -/
def bootmemParseMultiboot (block : ByteMemory) (fuel : Nat) (info : BootInfo) :
    Reads (Option BootInfo) := do
  let info := { info with
    hasFramebuffer := false, cmdline := none, bootLoader := none, regions := [] }
  let total ← totalSize block
  if total < 32 then pure (some info)
  else
    match ← findTags block candidates with
    | none => pure (some info)
    | some tagsOff => do
        let info ← readTags block tagsOff (total - tagsOff) fuel 0
          { info with tagsOffset := tagsOff }
        pure (info.map fun info => { info with regionCount := info.regions.length })

end Charis.Boot
