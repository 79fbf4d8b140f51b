import Charis.Boot.BootmemSafety

/-!
# What the parser records of a list of tags

A block that is built from a list of tags is parsed at offset 8, and the fields come from the
tags of the list: the map from its first memory map, the rest from the last tag of the kind.
-/

namespace Charis.Boot

open Charis.Lib

variable {block : ByteMemory} {off used : Nat}

/-- A tag with the bytes after its header. -/
structure Tag where
  type : Nat
  body : List UInt8
  deriving DecidableEq, Repr

namespace Tag

def size (tag : Tag) : Nat := 8 + tag.body.length

/-- The number in some bytes of a tag, by the offset from the start of the tag. -/
def field (tag : Tag) (offset width : Nat) : Nat :=
  ByteMemory.readLE (fun address => tag.body.getD (address - 8) 0) offset width

def entrySize (tag : Tag) : Nat := tag.field 8 4

/-- The number of entries of a memory map. -/
def entryCount (tag : Tag) : Nat := (tag.size - 16) / tag.entrySize

def region (tag : Tag) (index : Nat) : Region :=
  ⟨tag.field (16 + index * tag.entrySize) 8, tag.field (16 + index * tag.entrySize + 8) 8,
    tag.field (16 + index * tag.entrySize + 16) 4⟩

/-- The entries of a memory map. -/
def regions (tag : Tag) : List Region := (List.range tag.entryCount).map tag.region

end Tag

/-- A tag stands at a position of a list of tags. -/
structure StandsAt (block : ByteMemory) (off used : Nat) (tag : Tag) : Prop where
  other : tag.type ≠ multibootTagEnd
  type : tagType block off used = tag.type
  size : tagSize block off used = tag.size
  body : block.loadBytes (off + used + 8) tag.body.length = tag.body

/-- Tags stand one after the other at multiples of eight bytes, up to an END tag. -/
inductive Laid (block : ByteMemory) (off : Nat) : Nat → List Tag → Nat → Prop where
  | nil {used : Nat} :
      tagType block off used = multibootTagEnd → tagSize block off used = 8 →
      Laid block off used [] (used + 8)
  | cons {used stop : Nat} {tag : Tag} {tags : List Tag} :
      StandsAt block off used tag →
      Laid block off (used + (tag.size + 7) / 8 * 8) tags stop →
      Laid block off used (tag :: tags) stop

/-- A block as the boot loader builds it from a list of tags. -/
structure Built (block : ByteMemory) (tags : List Tag) : Prop where
  large : 32 ≤ sizeOf block
  laid : Laid block 8 0 tags (sizeOf block - 8)
  count : tags.length ≤ 255
  mmap : ∀ tag ∈ tags, tag.type = multibootTagMmap → 16 ≤ tag.size ∧ 24 ≤ tag.entrySize

namespace StandsAt

variable {tag : Tag}

/-- The fields of a tag are found at its position. -/
theorem readLE (stands : StandsAt block off used tag) {offset width : Nat} (after : 8 ≤ offset)
    (inside : offset + width ≤ tag.size) :
    block.readLE (off + used + offset) width = tag.field offset width := by
  apply ByteMemory.readLE_eq_of_shift
  intro index below
  have inBody : offset + index - 8 < tag.body.length := by
    unfold Tag.size at inside
    omega
  have byte : (block.loadBytes (off + used + 8) tag.body.length).getD (offset + index - 8) 0 =
      block (off + used + 8 + (offset + index - 8)) := ByteMemory.getD_loadBytes inBody
  rw [stands.body] at byte
  rw [byte]
  congr 1
  omega

theorem entrySize (stands : StandsAt block off used tag) (large : 16 ≤ tag.size) :
    entrySizeOf block off used = tag.entrySize :=
  stands.readLE (by omega) (by omega)

end StandsAt

namespace Laid

variable {tags : List Tag} {stop : Nat}

theorem stop_le (laid : Laid block off used tags stop) : used + 8 ≤ stop := by
  induction laid with
  | nil _ _ => exact Nat.le_refl _
  | cons _ _ ih => omega

/-- The positions of the tags form a chain. -/
theorem chain (laid : Laid block off used tags stop) (small : stop < 2 ^ 32) :
    ∃ positions last, TagChain block off stop used positions last ∧
      tagType block off last = multibootTagEnd ∧
        List.Forall₂ (StandsAt block off) positions tags := by
  induction laid with
  | nil ended _ => exact ⟨[], _, .nil, ended, .nil⟩
  | @cons used stop tag tags stands rest ih =>
  have room := rest.stop_le
  have size := stands.size
  have padded : paddedSize (tagSize block off used) = (tag.size + 7) / 8 * 8 := by
    rw [size]
    exact paddedSize_of_le (by omega)
  have continues : Continues block off stop used := by
    constructor
    · rw [stands.type]
      exact stands.other
    · rw [size]
      exact Nat.le_add_right _ _
    · omega
    · omega
  obtain ⟨positions, last, chain, ended, related⟩ := ih small
  rw [← padded] at chain
  exact ⟨used :: positions, last, .cons continues chain, ended, .cons stands related⟩

end Laid

/-- A fold that each element of a kind sets anew depends on the last of them. -/
theorem foldl_last {α τ σ : Type*} {related : α → τ → Prop} {shows : σ → Option τ → Prop}
    {kind : τ → Bool} {step : σ → α → σ}
    (takes : ∀ state element tag, related element tag → kind tag = true →
      shows (step state element) (some tag))
    (keeps : ∀ state element tag last, related element tag → kind tag = false →
      shows state last → shows (step state element) last)
    {elements : List α} {tags : List τ} (pairs : List.Forall₂ related elements tags)
    {state : σ} {last : Option τ} (start : shows state last) :
    shows (elements.foldl step state) ((tags.filter kind).getLast?.or last) := by
  induction pairs generalizing state last with
  | nil => exact start
  | @cons element tag elements tags pair _ ih =>
  rw [List.foldl_cons]
  cases isKind : kind tag with
  | false =>
      rw [List.filter_cons_of_neg (by simp [isKind])]
      exact ih (keeps state element tag last pair isKind start)
  | true =>
  have after := ih (takes state element tag pair isKind)
  rw [List.filter_cons_of_pos isKind, List.getLast?_cons]
  cases later : (tags.filter kind).getLast? with
  | none =>
      rw [later] at after
      exact after
  | some found =>
      rw [later] at after
      exact after

/-- The first element of a kind is related to the first tag of the kind. -/
theorem find?_related {α τ : Type*} {related : α → τ → Prop} {chosen : α → Bool} {kind : τ → Bool}
    (same : ∀ element tag, related element tag → chosen element = kind tag)
    {elements : List α} {tags : List τ} (pairs : List.Forall₂ related elements tags) :
    Option.Rel related (elements.find? chosen) (tags.find? kind) := by
  induction pairs with
  | nil => exact .none
  | @cons element tag elements tags pair _ ih =>
  have equal := same element tag pair
  cases isKind : kind tag with
  | false =>
      rw [List.find?_cons_of_neg (by simp [equal, isKind]),
        List.find?_cons_of_neg (by simp [isKind])]
      exact ih
  | true =>
      rw [List.find?_cons_of_pos (by rw [equal, isKind]), List.find?_cons_of_pos isKind]
      exact .some pair

/-! ## Strings and the framebuffer -/

/-- The last tag of a type that holds a string. -/
def lastString (tags : List Tag) (type : Nat) : Option Tag :=
  (tags.filter fun tag => tag.type = type ∧ 8 < tag.size).getLast?

/-- A pointer leads to the string of a tag. -/
def PointsTo (block : ByteMemory) (pointer : Nat) (tag : Tag) : Prop :=
  block.loadBytes pointer tag.body.length = tag.body

/-- The last framebuffer tag that is long enough. -/
def lastFramebuffer (tags : List Tag) : Option Tag :=
  (tags.filter fun tag => tag.type = multibootTagFramebuffer ∧ 32 ≤ tag.size).getLast?

/-- The description of a framebuffer. -/
structure Display where
  addr : Nat
  pitch : Nat
  width : Nat
  height : Nat
  bpp : Nat
  type : Nat
  deriving DecidableEq, Repr

def BootInfo.display (info : BootInfo) : Option Display :=
  if info.hasFramebuffer then
    some ⟨info.framebufferAddr, info.framebufferPitch, info.framebufferWidth,
      info.framebufferHeight, info.framebufferBpp, info.framebufferType⟩
  else none

def Tag.display (tag : Tag) : Display :=
  ⟨tag.field 8 8, tag.field 16 4, tag.field 20 4, tag.field 24 4, tag.field 28 1, tag.field 29 1⟩

/-- The colour positions of the fields. -/
def BootInfo.colours (info : BootInfo) : Nat × Nat × Nat :=
  (info.framebufferRed, info.framebufferGreen, info.framebufferBlue)

/-- The colour positions that the parser takes from a framebuffer tag. -/
def Tag.takenColours (tag : Tag) : Nat × Nat × Nat :=
  if tag.field 29 1 = multibootFramebufferTypeRgb ∧ 35 ≤ tag.size then
    (tag.field 32 1, tag.field 33 1, tag.field 34 1)
  else (16, 8, 0)

section applyTag

variable {tag : Tag} {regions : List Recorded} {info : BootInfo}

theorem readFramebuffer_short {position size : Nat} (short : size < 32) :
    (readFramebuffer block position size info).value = info := by
  rw [readFramebuffer, if_pos short]
  rfl

theorem readFramebuffer_strings (position size : Nat) :
    (readFramebuffer block position size info).value.cmdline = info.cmdline ∧
      (readFramebuffer block position size info).value.bootLoader = info.bootLoader ∧
        (readFramebuffer block position size info).value.tagsOffset = info.tagsOffset := by
  unfold readFramebuffer
  split <;> exact ⟨rfl, rfl, rfl⟩

theorem readFramebuffer_fields (stands : StandsAt block off used tag) (large : 32 ≤ tag.size) :
    (readFramebuffer block (off + used) tag.size info).value.display = some tag.display ∧
      (readFramebuffer block (off + used) tag.size info).value.colours = tag.takenColours := by
  have field : ∀ offset width, 8 ≤ offset → offset + width ≤ tag.size →
      block.readLE (off + used + offset) width = tag.field offset width :=
    fun offset width after inside => stands.readLE after inside
  rw [readFramebuffer, if_neg (by omega)]
  constructor
  · simp only [Reads.value_bind, Reads.value_number, Reads.value_pure, BootInfo.display, if_true,
      Tag.display, field 8 8 (by omega) (by omega), field 16 4 (by omega) (by omega),
      field 20 4 (by omega) (by omega), field 24 4 (by omega) (by omega),
      field 28 1 (by omega) (by omega), field 29 1 (by omega) (by omega)]
  · simp only [Reads.value_bind, Reads.value_number, Reads.value_pure, BootInfo.colours,
      field 29 1 (by omega) (by omega)]
    rw [readColours, Tag.takenColours]
    by_cases rgb : tag.field 29 1 = multibootFramebufferTypeRgb ∧ 35 ≤ tag.size
    · rw [if_pos rgb, if_pos rgb]
      simp only [Reads.value_bind, Reads.value_number, Reads.value_pure,
        field 32 1 (by omega) (by omega), field 33 1 (by omega) (by omega),
        field 34 1 (by omega) (by omega)]
    · rw [if_neg rgb, if_neg rgb]
      rfl

theorem applyTag_cmdline (stands : StandsAt block off used tag)
    (isCmdline : tag.type = multibootTagCmdline) (long : 8 < tag.size) :
    (applyTag block off regions info used).cmdline = some (off + used + 8) := by
  rw [applyTag, stands.type, stands.size, isCmdline, if_pos rfl, if_pos long]

theorem applyTag_cmdline_other (stands : StandsAt block off used tag)
    (other : ¬ (tag.type = multibootTagCmdline ∧ 8 < tag.size)) :
    (applyTag block off regions info used).cmdline = info.cmdline := by
  rw [applyTag, stands.type, stands.size]
  split
  next isCmdline =>
    rw [if_neg fun long => other ⟨isCmdline, long⟩]
  split
  · split <;> rfl
  split
  · rfl
  split
  · exact (readFramebuffer_strings _ _).1
  · rfl

theorem applyTag_bootLoader (stands : StandsAt block off used tag)
    (isName : tag.type = multibootTagBootLoaderName) (long : 8 < tag.size) :
    (applyTag block off regions info used).bootLoader = some (off + used + 8) := by
  rw [applyTag, stands.type, stands.size, isName, if_neg (by decide), if_pos rfl, if_pos long]

theorem applyTag_bootLoader_other (stands : StandsAt block off used tag)
    (other : ¬ (tag.type = multibootTagBootLoaderName ∧ 8 < tag.size)) :
    (applyTag block off regions info used).bootLoader = info.bootLoader := by
  rw [applyTag, stands.type, stands.size]
  split
  · split <;> rfl
  split
  next isName =>
    rw [if_neg fun long => other ⟨isName, long⟩]
  split
  · rfl
  split
  · exact (readFramebuffer_strings _ _).2.1
  · rfl

theorem applyTag_framebuffer (stands : StandsAt block off used tag)
    (isFramebuffer : tag.type = multibootTagFramebuffer) (large : 32 ≤ tag.size) :
    (applyTag block off regions info used).display = some tag.display ∧
      (applyTag block off regions info used).colours = tag.takenColours := by
  rw [applyTag, stands.type, stands.size, isFramebuffer, if_neg (by decide), if_neg (by decide),
    if_neg (by decide), if_pos rfl]
  exact readFramebuffer_fields stands large

theorem applyTag_other (stands : StandsAt block off used tag)
    (other : ¬ (tag.type = multibootTagFramebuffer ∧ 32 ≤ tag.size)) :
    (applyTag block off regions info used).display = info.display ∧
      (applyTag block off regions info used).colours = info.colours := by
  rw [applyTag, stands.type, stands.size]
  split
  · split <;> exact ⟨rfl, rfl⟩
  split
  · split <;> exact ⟨rfl, rfl⟩
  split
  · exact ⟨rfl, rfl⟩
  split
  next isFramebuffer =>
    rw [readFramebuffer_short (Nat.lt_of_not_le fun large => other ⟨isFramebuffer, large⟩)]
    exact ⟨rfl, rfl⟩
  · exact ⟨rfl, rfl⟩

theorem applyTag_tagsOffset :
    (applyTag block off regions info used).tagsOffset = info.tagsOffset := by
  unfold applyTag
  split
  · split <;> rfl
  split
  · split <;> rfl
  split
  · rfl
  split
  · exact (readFramebuffer_strings _ _).2.2
  · rfl

end applyTag

section extracted

variable {positions : List Nat} {tags : List Tag} (info : BootInfo)

theorem extracted_tagsOffset : (extracted block off positions info).tagsOffset = off := by
  unfold extracted
  suffices kept : ∀ (regions : List Recorded) (start : BootInfo),
      (positions.foldl (applyTag block off regions) start).tagsOffset = start.tagsOffset from
    kept _ _
  intro regions
  induction positions with
  | nil => exact fun _ => rfl
  | cons position positions ih =>
      intro start
      rw [List.foldl_cons, ih, applyTag_tagsOffset]

/-- A string is the one of the last tag of its type that has one. -/
theorem extracted_string {string : BootInfo → Option Nat} {type : Nat}
    (cleared : string { info.cleared with tagsOffset := off } = none)
    (taken : ∀ {regions info used tag}, StandsAt block off used tag → tag.type = type →
      8 < tag.size → string (applyTag block off regions info used) = some (off + used + 8))
    (passed : ∀ {regions info used tag}, StandsAt block off used tag →
      ¬ (tag.type = type ∧ 8 < tag.size) →
      string (applyTag block off regions info used) = string info)
    (pairs : List.Forall₂ (StandsAt block off) positions tags) :
    Option.Rel (PointsTo block) (string (extracted block off positions info))
      (lastString tags type) := by
  have last := @foldl_last _ _ _ (StandsAt block off)
    (fun (info : BootInfo) tag => Option.Rel (PointsTo block) (string info) tag)
    (fun tag => tag.type = type ∧ 8 < tag.size)
    (applyTag block off (mmapRegions block off positions))
    (fun info position tag stands isKind => by
      obtain ⟨isType, long⟩ := of_decide_eq_true isKind
      rw [taken stands isType long]
      exact .some stands.body)
    (fun info position tag last stands isKind kept => by
      rw [passed stands (of_decide_eq_false isKind)]
      exact kept)
    positions tags pairs { info.cleared with tagsOffset := off } none (cleared ▸ .none)
  rw [Option.or_none] at last
  exact last

/-- The description and the colours of the framebuffer are those of its last tag. -/
theorem extracted_framebuffer (pairs : List.Forall₂ (StandsAt block off) positions tags) :
    (extracted block off positions info).display = (lastFramebuffer tags).map Tag.display ∧
      ∀ tag, lastFramebuffer tags = some tag →
        (extracted block off positions info).colours = tag.takenColours := by
  have last := @foldl_last _ _ _ (StandsAt block off)
    (fun (info : BootInfo) tag => info.display = tag.map Tag.display ∧
      ∀ shown, tag = some shown → info.colours = shown.takenColours)
    (fun tag => tag.type = multibootTagFramebuffer ∧ 32 ≤ tag.size)
    (applyTag block off (mmapRegions block off positions))
    (fun info position tag stands isKind => by
      obtain ⟨isFramebuffer, large⟩ := of_decide_eq_true isKind
      obtain ⟨display, colours⟩ := applyTag_framebuffer stands isFramebuffer large
      refine ⟨display, ?_⟩
      rintro shown ⟨⟩
      exact colours)
    (fun info position tag last stands isKind kept => by
      obtain ⟨display, colours⟩ := applyTag_other stands (of_decide_eq_false isKind)
      rw [display, colours]
      exact kept)
    positions tags pairs { info.cleared with tagsOffset := off } none
    ⟨rfl, by intro shown equal; cases equal⟩
  rw [Option.or_none] at last
  exact last

end extracted

/-! ## The memory map -/

/-- The region that 24 bytes describe. -/
def regionAt (block : ByteMemory) (address : Nat) : Region :=
  ⟨block.readLE address 8, block.readLE (address + 8) 8, block.readLE (address + 16) 4⟩

section entries

variable {start size entrySize : Nat}

theorem readEntries_eq_nil (entriesOff count : Nat) :
    (readEntries block start size entrySize count entriesOff).value = [] ↔
      count = 0 ∨ size < (entriesOff + entrySize) % 2 ^ 32 := by
  cases count with
  | zero => exact ⟨fun _ => .inl rfl, fun _ => rfl⟩
  | succ count =>
  rw [readEntries]
  by_cases full : size < (entriesOff + entrySize) % 2 ^ 32
  · rw [if_pos full]
    exact ⟨fun _ => .inr full, fun _ => rfl⟩
  · rw [if_neg full]
    constructor
    · intro empty
      cases empty
    · intro stops
      exact absurd (stops.resolve_left (Nat.succ_ne_zero _)) full

theorem readEntries_more (entriesOff count : Nat)
    (more : (entriesOff + entrySize) % 2 ^ 32 ≤ size) :
    (readEntries block start size entrySize (count + 1) entriesOff).value.map Recorded.region =
      regionAt block (start + entriesOff) ::
        (readEntries block start size entrySize count
          ((entriesOff + entrySize) % 2 ^ 32)).value.map Recorded.region := by
  rw [readEntries, if_neg (not_lt.mpr more)]
  rfl

/-- Entries that lie inside the tag are taken one after the other. -/
theorem readEntries_prefix (small : size < 2 ^ 32) (taken entriesOff : Nat) {count : Nat}
    (inside : ∀ index < taken, entriesOff + (index + 1) * entrySize ≤ size)
    (room : taken ≤ count) :
    (readEntries block start size entrySize count entriesOff).value.map Recorded.region =
      (List.range taken).map
          (fun index => regionAt block (start + (entriesOff + index * entrySize))) ++
        (readEntries block start size entrySize (count - taken)
          (entriesOff + taken * entrySize)).value.map Recorded.region := by
  induction taken generalizing entriesOff count with
  | zero => simp
  | succ taken ih =>
  obtain ⟨rest, rfl⟩ := Nat.exists_eq_add_of_le' (Nat.le_trans (Nat.succ_pos taken) room)
  have first := inside 0 (Nat.succ_pos _)
  rw [Nat.zero_add, Nat.one_mul] at first
  have sum : (entriesOff + entrySize) % 2 ^ 32 = entriesOff + entrySize :=
    Nat.mod_eq_of_lt (by omega)
  have shift : ∀ index, entriesOff + (index + 1) * entrySize =
      entriesOff + entrySize + index * entrySize := by
    intro index
    rw [Nat.add_one_mul]
    omega
  have moved : (List.range taken).map
        (fun index => regionAt block (start + (entriesOff + entrySize + index * entrySize))) =
      (List.range taken).map
        ((fun index => regionAt block (start + (entriesOff + index * entrySize))) ∘
          Nat.succ) := by
    apply List.map_congr_left
    intro index _
    rw [Function.comp_apply, Nat.succ_eq_add_one, shift]
  rw [readEntries_more _ _ (by rw [sum]; exact first), sum, ih]
  · rw [List.range_succ_eq_map, List.map_cons, List.map_map, List.cons_append,
      Nat.zero_mul, Nat.add_zero, shift, Nat.add_sub_add_right, moved]
  · intro index below
    rw [← shift]
    exact inside (index + 1) (Nat.succ_lt_succ below)
  · exact Nat.le_of_succ_le_succ room

end entries

/-- The table is full, or the sum behind the last entry of a map does not come back from a
wrap-around. -/
def SumsFit (tag : Tag) : Prop :=
  bootmemMaxRegions ≤ tag.entryCount ∨
    tag.size < (16 + (tag.entryCount + 1) * tag.entrySize) % 2 ^ 32

theorem mmapEntries_regions {tag : Tag} (stands : StandsAt block off used tag)
    (large : 16 ≤ tag.size) (wide : 24 ≤ tag.entrySize) :
    (mmapEntries block off used).value.map Recorded.region =
        tag.regions.take bootmemMaxRegions ↔
      SumsFit tag := by
  have small : tag.size < 2 ^ 32 := by
    rw [← stands.size]
    exact block.readLE_lt _ 4
  have product : tag.entryCount * tag.entrySize ≤ tag.size - 16 := Nat.div_mul_le_self _ _
  have inside : ∀ index < min bootmemMaxRegions tag.entryCount,
      16 + (index + 1) * tag.entrySize ≤ tag.size := by
    intro index below
    have step : (index + 1) * tag.entrySize ≤ tag.entryCount * tag.entrySize :=
      Nat.mul_le_mul_right _ (Nat.lt_of_lt_of_le below (Nat.min_le_right _ _))
    omega
  have taken : tag.regions.take bootmemMaxRegions =
      (List.range (min bootmemMaxRegions tag.entryCount)).map
        (fun index => regionAt block (off + used + (16 + index * tag.entrySize))) := by
    rw [Tag.regions, ← List.map_take, List.take_range]
    apply List.map_congr_left
    intro index member
    have fits := inside index (List.mem_range.mp member)
    rw [Nat.add_one_mul] at fits
    rw [regionAt, Tag.region, Nat.add_assoc (off + used), Nat.add_assoc (off + used),
      stands.readLE (by omega) (by omega), stands.readLE (by omega) (by omega),
      stands.readLE (by omega) (by omega)]
  rw [mmapEntries, stands.entrySize large, stands.size, if_neg (by omega), taken,
    readEntries_prefix small (min bootmemMaxRegions tag.entryCount) 16 inside
      (Nat.min_le_left _ _), List.append_right_eq_self, List.map_eq_nil_iff,
    readEntries_eq_nil, SumsFit, Nat.sub_eq_zero_iff_le]
  rcases Nat.le_total bootmemMaxRegions tag.entryCount with many | few
  · rw [Nat.min_eq_left many]
    exact ⟨fun _ => .inl many, fun _ => .inl (Nat.le_refl _)⟩
  · rw [Nat.min_eq_right few, Nat.add_assoc, ← Nat.add_one_mul]

/-- The first memory map. -/
def firstMmap (tags : List Tag) : Option Tag := tags.find? (·.type = multibootTagMmap)

/-- The regions of the first memory map, as many as the table takes. -/
def firstRegions (tags : List Tag) : List Region :=
  match firstMmap tags with
  | none => []
  | some tag => tag.regions.take bootmemMaxRegions

/-- The fields hold what the list of tags says. -/
structure Records (block : ByteMemory) (tags : List Tag) (result : BootInfo) : Prop where
  tagsOffset : result.tagsOffset = 8
  regions : result.regions.map Recorded.region = firstRegions tags
  regionCount : result.regionCount = (firstRegions tags).length
  cmdline : Option.Rel (PointsTo block) result.cmdline (lastString tags multibootTagCmdline)
  bootLoader : Option.Rel (PointsTo block) result.bootLoader
    (lastString tags multibootTagBootLoaderName)
  display : result.display = (lastFramebuffer tags).map Tag.display

namespace Built

variable {tags : List Tag}

/-- A block that is built from tags is parsed along them. -/
theorem parsed (built : Built block tags) :
    ∃ positions, List.Forall₂ (StandsAt block 8) positions tags ∧
      ∀ info fuel, 512 ≤ fuel → (bootmemParseMultiboot block fuel info).value =
        some { extracted block 8 positions info with
          regionCount := (extracted block 8 positions info).regions.length } := by
  have bounded := sizeOf_lt block
  have large := built.large
  obtain ⟨positions, last, chain, ended, pairs⟩ := built.laid.chain (by omega)
  have tried : Tried block candidates 8 := by
    refine ⟨by decide, by omega, ?_⟩
    intro earlier member less
    have least := eight_le_candidates earlier member
    omega
  have short : positions.length < 256 := by
    rw [pairs.length_eq]
    exact Nat.lt_succ_of_le built.count
  exact ⟨positions, pairs, fun info fuel enough =>
    (bootmemParseMultiboot_found large tried chain short ended enough info).1⟩

/-- The map is taken from the position of the first memory map. -/
theorem mmapRegions_iff (built : Built block tags) {positions : List Nat}
    (pairs : List.Forall₂ (StandsAt block 8) positions tags) :
    (mmapRegions block 8 positions).map Recorded.region = firstRegions tags ↔
      ∀ tag, firstMmap tags = some tag → SumsFit tag := by
  have same : ∀ position tag, StandsAt block 8 position tag →
      decide (IsMmap block 8 position) =
        decide (tag.type = multibootTagMmap ∧ 16 ≤ tag.size) := by
    intro position tag stands
    rw [decide_eq_decide, IsMmap, stands.type, stands.size]
  have first := find?_related same pairs
  have plain : tags.find? (fun tag => decide (tag.type = multibootTagMmap ∧ 16 ≤ tag.size)) =
      firstMmap tags := by
    apply List.find?_congr
    intro tag member
    rw [decide_eq_decide]
    exact ⟨fun both => both.1, fun isMmap => ⟨isMmap, (built.mmap tag member isMmap).1⟩⟩
  rw [plain] at first
  unfold mmapRegions firstRegions
  generalize found : positions.find? (IsMmap block 8 ·) = position at first ⊢
  cases chosen : firstMmap tags with
  | none =>
      rw [chosen] at first
      cases first
      simp
  | some tag =>
  rw [chosen] at first
  cases first with
  | @some position _ stands =>
  have isMmap : tag.type = multibootTagMmap := by
    simpa using List.find?_some chosen
  obtain ⟨large, wide⟩ := built.mmap tag (List.mem_of_find?_eq_some chosen) isMmap
  simp only [mmapEntries_regions stands large wide, Option.some.injEq, forall_eq']

end Built

/-- The parser records what a block was built from, exactly when the sums over the entries of
the first memory map fit. -/
theorem bootmemParseMultiboot_records_iff {tags : List Tag} (built : Built block tags) :
    (∀ info, ∃ result, (∀ fuel, 512 ≤ fuel →
        (bootmemParseMultiboot block fuel info).value = some result) ∧
          Records block tags result) ↔
      ∀ tag, firstMmap tags = some tag → SumsFit tag := by
  obtain ⟨positions, pairs, parsed⟩ := built.parsed
  rw [← built.mmapRegions_iff pairs]
  constructor
  · intro every
    obtain ⟨result, value, records⟩ := every {}
    have equal := (parsed {} 512 (Nat.le_refl _)).symm.trans (value 512 (Nat.le_refl _))
    rw [Option.some.injEq] at equal
    have regions := records.regions
    rw [← equal] at regions
    dsimp only at regions
    rw [extracted_regions] at regions
    exact regions
  intro regions info
  have taken := extracted_regions block 8 positions info
  refine ⟨_, parsed info, ?_⟩
  constructor
  · exact extracted_tagsOffset info
  · dsimp only
    rw [taken, regions]
  · dsimp only
    rw [taken, ← regions, List.length_map]
  · exact extracted_string info rfl applyTag_cmdline applyTag_cmdline_other pairs
  · exact extracted_string info rfl applyTag_bootLoader applyTag_bootLoader_other pairs
  · exact (extracted_framebuffer info pairs).1

/-- A command line, a memory map with one region, and a framebuffer with red at bit 16, green at 8
and blue at 0. -/
def sampleTags : List Tag :=
  [⟨multibootTagCmdline, [97, 0]⟩,
    ⟨multibootTagMmap, [24, 0, 0, 0, 0, 0, 0, 0,
      0, 0, 16, 0, 0, 0, 0, 0, 0, 0, 0, 1, 0, 0, 0, 0, 1, 0, 0, 0, 0, 0, 0, 0]⟩,
    ⟨multibootTagFramebuffer, [0, 0, 0, 0xFD, 0, 0, 0, 0, 16, 0, 0, 0, 4, 0, 0, 0, 2, 0, 0, 0,
      32, 1, 0, 0, 16, 8, 8, 8, 0, 8]⟩]

def sampleBlock : ByteMemory := fun address =>
  [112, 0, 0, 0, 0, 0, 0, 0,
    1, 0, 0, 0, 10, 0, 0, 0, 97, 0, 0, 0, 0, 0, 0, 0,
    6, 0, 0, 0, 40, 0, 0, 0, 24, 0, 0, 0, 0, 0, 0, 0,
    0, 0, 16, 0, 0, 0, 0, 0, 0, 0, 0, 1, 0, 0, 0, 0, 1, 0, 0, 0, 0, 0, 0, 0,
    8, 0, 0, 0, 38, 0, 0, 0, 0, 0, 0, 0xFD, 0, 0, 0, 0, 16, 0, 0, 0, 4, 0, 0, 0, 2, 0, 0, 0,
    32, 1, 0, 0, 16, 8, 8, 8, 0, 8, 0, 0,
    0, 0, 0, 0, 8, 0, 0, 0].getD address 0

theorem sampleBlock_built : Built sampleBlock sampleTags := by
  constructor
  · decide
  · exact .cons ⟨by decide, rfl, rfl, rfl⟩ (.cons ⟨by decide, rfl, rfl, rfl⟩
      (.cons ⟨by decide, rfl, rfl, rfl⟩ (.nil rfl rfl)))
  · decide
  · decide

theorem sampleBlock_recorded :
    Built sampleBlock sampleTags ∧
      ∀ info, ∃ result, (∀ fuel, 512 ≤ fuel →
          (bootmemParseMultiboot sampleBlock fuel info).value = some result) ∧
        Records sampleBlock sampleTags result := by
  constructor
  · exact sampleBlock_built
  · apply (bootmemParseMultiboot_records_iff sampleBlock_built).mpr
    rintro tag ⟨⟩
    exact .inr (by decide)

theorem wrappingBlock_built :
    Built wrappingBlock [⟨multibootTagMmap, [0xF8, 0xFF, 0xFF, 0xFF, 0, 0, 0, 0]⟩] := by
  constructor
  · decide
  · exact .cons ⟨by decide, rfl, rfl, rfl⟩ (.nil rfl rfl)
  · decide
  · decide

/-- The map without entries gives two regions. -/
theorem wrappingBlock_misread :
    Built wrappingBlock [⟨multibootTagMmap, [0xF8, 0xFF, 0xFF, 0xFF, 0, 0, 0, 0]⟩] ∧
      ¬ ∀ info, ∃ result, (∀ fuel, 512 ≤ fuel →
          (bootmemParseMultiboot wrappingBlock fuel info).value = some result) ∧
        Records wrappingBlock [⟨multibootTagMmap, [0xF8, 0xFF, 0xFF, 0xFF, 0, 0, 0, 0]⟩]
          result := by
  refine ⟨wrappingBlock_built, ?_⟩
  intro every
  obtain ⟨result, value, records⟩ := every {}
  have parsed := wrappingBlock_parsed.2.2
  rw [value 512 (Nat.le_refl _), Option.map_some, Option.some.injEq, records.regionCount] at parsed
  exact absurd parsed (by decide)

end Charis.Boot
