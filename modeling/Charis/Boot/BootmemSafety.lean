import Charis.Boot.TagExtraction

/-!
# What the boot information may make the kernel read

The reads of the parser stay inside the block, and every region comes from inside its tag,
exactly when no list that is tried ends within eight bytes of the end of the block and the
sums over the entries of the memory map do not wrap around to an entry that sticks out.
-/

namespace Charis.Boot

open Charis.Lib

variable {block : ByteMemory} {off total : Nat}

/-- As long as the sums over the entries stay at or below the size of the tag, the entries lie
inside the tag. -/
def EntriesFit (size entrySize count entriesOff : Nat) : Prop :=
  ∀ index < count,
    (∀ earlier ≤ index, (entriesOff + (earlier + 1) * entrySize) % 2 ^ 32 ≤ size) →
      (entriesOff + index * entrySize) % 2 ^ 32 + 24 ≤ size

theorem next_sum (entriesOff entrySize index : Nat) :
    ((entriesOff + entrySize) % 2 ^ 32 + index * entrySize) % 2 ^ 32 =
      (entriesOff + (index + 1) * entrySize) % 2 ^ 32 := by
  rw [Nat.mod_add_mod, Nat.add_assoc, Nat.add_one_mul, Nat.add_comm entrySize]

theorem entriesFit_succ {size entrySize count entriesOff : Nat} (small : entriesOff < 2 ^ 32) :
    EntriesFit size entrySize (count + 1) entriesOff ↔
      ((entriesOff + entrySize) % 2 ^ 32 ≤ size →
        entriesOff + 24 ≤ size ∧
          EntriesFit size entrySize count ((entriesOff + entrySize) % 2 ^ 32)) := by
  constructor
  · intro fits guard
    constructor
    · have first := fits 0 (Nat.succ_pos _) (fun earlier before => by
        rw [Nat.le_zero.mp before]
        simpa using guard)
      rw [Nat.zero_mul, Nat.mod_eq_of_lt (by omega)] at first
      exact first
    · intro index below guards
      rw [next_sum]
      apply fits (index + 1) (Nat.succ_lt_succ below)
      intro earlier before
      cases earlier with
      | zero => simpa using guard
      | succ earlier =>
          rw [← next_sum]
          exact guards earlier (Nat.le_of_succ_le_succ before)
  intro step index below guards
  have guard : (entriesOff + entrySize) % 2 ^ 32 ≤ size := by
    simpa using guards 0 (Nat.zero_le _)
  obtain ⟨first, rest⟩ := step guard
  cases index with
  | zero =>
      rw [Nat.zero_mul, Nat.mod_eq_of_lt (by omega)]
      exact first
  | succ index =>
      rw [← next_sum]
      apply rest index (Nat.lt_of_succ_lt_succ below)
      intro earlier before
      rw [next_sum]
      exact guards (earlier + 1) (Nat.succ_le_succ before)

/-- The region is what the 24 bytes that it was decoded from say, and these lie in a memory
map tag of the block. -/
structure DecodedInside (block : ByteMemory) (total : Nat) (recorded : Recorded) : Prop where
  type : block.readLE recorded.tag 4 = multibootTagMmap
  size : block.readLE (recorded.tag + 4) 4 = recorded.size
  inBlock : recorded.tag + recorded.size ≤ total
  after : recorded.tag ≤ recorded.source
  before : recorded.source + 24 ≤ recorded.tag + recorded.size
  region : recorded.region =
    ⟨block.readLE recorded.source 8, block.readLE (recorded.source + 8) 8,
      block.readLE (recorded.source + 16) 4⟩

section entries

variable {tag size entrySize : Nat}

theorem readEntries_source (count entriesOff : Nat) {recorded : Recorded}
    (member : recorded ∈ (readEntries block tag size entrySize count entriesOff).value) :
    recorded.tag = tag ∧ recorded.size = size ∧ recorded.tag ≤ recorded.source ∧
      recorded.region = ⟨block.readLE recorded.source 8, block.readLE (recorded.source + 8) 8,
        block.readLE (recorded.source + 16) 4⟩ := by
  induction count generalizing entriesOff with
  | zero => cases member
  | succ count ih =>
  unfold readEntries at member
  split at member
  · cases member
  · simp only [Reads.value_bind, Reads.value_number, Reads.value_pure, List.mem_cons] at member
    rcases member with here | later
    · rw [here]
      exact ⟨rfl, rfl, Nat.le_add_right _ _, rfl⟩
    · exact ih _ later

theorem readEntries_inside (count entriesOff : Nat) (small : entriesOff < 2 ^ 32) :
    (∀ recorded ∈ (readEntries block tag size entrySize count entriesOff).value,
        recorded.source + 24 ≤ recorded.tag + recorded.size) ↔
      EntriesFit size entrySize count entriesOff := by
  induction count generalizing entriesOff with
  | zero => simp [readEntries, EntriesFit]
  | succ count ih =>
  rw [entriesFit_succ small, ← ih _ (Nat.mod_lt _ (by omega)), readEntries]
  by_cases guard : size < (entriesOff + entrySize) % 2 ^ 32
  · rw [if_pos guard]
    constructor
    · intro _ passes
      omega
    · intro _ recorded member
      cases member
  · rw [if_neg guard]
    simp only [Reads.value_bind, Reads.value_number, Reads.value_pure, List.forall_mem_cons]
    constructor
    · rintro ⟨first, rest⟩ _
      exact ⟨by omega, rest⟩
    · intro step
      obtain ⟨first, rest⟩ := step (by omega)
      exact ⟨by omega, rest⟩

theorem readEntries_within {limit : Nat} (inside : tag + size ≤ limit) (count entriesOff : Nat)
    (small : entriesOff < 2 ^ 32) (fits : EntriesFit size entrySize count entriesOff) :
    (readEntries block tag size entrySize count entriesOff).Within limit := by
  induction count generalizing entriesOff with
  | zero => exact Reads.within_pure _ _
  | succ count ih =>
  rw [readEntries]
  by_cases guard : size < (entriesOff + entrySize) % 2 ^ 32
  · rw [if_pos guard]
    exact Reads.within_pure _ _
  · rw [if_neg guard]
    obtain ⟨first, rest⟩ := (entriesFit_succ small).mp fits (by omega)
    simp only [Reads.within_bind, Reads.within_number, Reads.within_pure, and_true]
    exact ⟨by omega, by omega, by omega, ih _ (Nat.mod_lt _ (by omega)) rest⟩

end entries

/-- The entries of a memory map lie inside its tag. -/
def MmapFits (block : ByteMemory) (off position : Nat) : Prop :=
  24 ≤ entrySizeOf block off position →
    EntriesFit (tagSize block off position) (entrySizeOf block off position) bootmemMaxRegions 16

theorem mmapEntries_within {position : Nat} (fits : MmapFits block off position)
    (inside : off + position + tagSize block off position ≤ total) :
    (mmapEntries block off position).Within total := by
  unfold mmapEntries
  split
  · exact Reads.within_pure _ _
  next large => exact readEntries_within inside _ _ (by omega) (fits (by omega))

theorem mmapEntries_inside {position : Nat} (isMmap : IsMmap block off position)
    (inside : off + position + tagSize block off position ≤ total) :
    (∀ recorded ∈ (mmapEntries block off position).value, DecodedInside block total recorded) ↔
      MmapFits block off position := by
  unfold mmapEntries MmapFits
  split
  next narrow =>
    constructor
    · intro _ large
      omega
    · intro _ recorded member
      cases member
  next large =>
    have cover : 24 ≤ entrySizeOf block off position := by omega
    simp only [cover, true_imp_iff]
    rw [← readEntries_inside _ _ (by omega : 16 < 2 ^ 32)]
    constructor
    · intro decoded recorded member
      exact (decoded recorded member).before
    · intro before recorded member
      obtain ⟨tagOf, sizeOf, after, region⟩ := readEntries_source _ _ member
      refine ⟨?_, ?_, ?_, after, before recorded member, region⟩
      · rw [tagOf]
        exact isMmap.1
      · rw [tagOf, sizeOf]
        rfl
      · rw [tagOf, sizeOf]
        exact inside

/-- The total size of a block. -/
def sizeOf (block : ByteMemory) : Nat := block.readLE 0 4

theorem sizeOf_lt (block : ByteMemory) : sizeOf block < 2 ^ 32 :=
  block.readLE_lt 0 4

/-- The walk accepts the list at an offset. -/
def Accepted (block : ByteMemory) (off : Nat) : Prop :=
  off < sizeOf block ∧ Coherent block off (sizeOf block - off)

/-- The walk comes to an offset among some, as none before it has been accepted. -/
def Tried (block : ByteMemory) (offsets : List Nat) (off : Nat) : Prop :=
  off ∈ offsets ∧ off < sizeOf block ∧
    ∀ earlier ∈ offsets, earlier < off → ¬ Accepted block earlier

/-- Every header that the walk comes to ends inside the block. -/
def HeadersFit (block : ByteMemory) (off : Nat) : Prop :=
  ∀ positions last, TagChain block off (sizeOf block - off) 0 positions last →
    positions.length < 256 → off + last + 8 ≤ sizeOf block

/-- The walk by the total size of the block. -/
theorem tagsWalkOk_eq (block : ByteMemory) (off : Nat) :
    tagsWalkOk block off =
      (⟨(), [⟨0, 4⟩]⟩ : Reads Unit) >>= fun _ =>
        if off < 8 ∨ sizeOf block ≤ off then pure false
        else tagsWalkLoop block off (sizeOf block - off) 256 0 :=
  rfl

theorem tagsWalkOk_value (least : 8 ≤ off) :
    (tagsWalkOk block off).value = true ↔ Accepted block off := by
  have bounded := sizeOf_lt block
  by_cases inside : off < sizeOf block
  · rw [tagsWalkOk_eq, Reads.value_bind, if_neg (by omega),
      tagsWalkLoop_value (by omega) (by omega)]
    exact ⟨fun coherent => ⟨inside, coherent⟩, fun accepted => accepted.2⟩
  · rw [tagsWalkOk_eq, Reads.value_bind, if_pos (by omega)]
    constructor
    · intro accepted
      cases accepted
    · intro accepted
      exact absurd accepted.1 inside

theorem tagsWalkOk_within (least : 8 ≤ off) (field : 4 ≤ sizeOf block) :
    (tagsWalkOk block off).Within (sizeOf block) ↔
      (off < sizeOf block → HeadersFit block off) := by
  have bounded := sizeOf_lt block
  have first : (⟨(), [⟨0, 4⟩]⟩ : Reads Unit).Within (sizeOf block) := by
    simpa [Reads.Within] using field
  by_cases inside : off < sizeOf block
  · rw [tagsWalkOk_eq, Reads.within_bind, if_neg (by omega),
      tagsWalkLoop_within (by omega) (by omega)]
    exact ⟨fun both _ => both.2, fun headers => ⟨first, headers inside⟩⟩
  · rw [tagsWalkOk_eq, Reads.within_bind, if_pos (by omega)]
    exact ⟨fun _ inside' => absurd inside' inside, fun _ => ⟨first, Reads.within_pure _ _⟩⟩

section search

variable {offsets : List Nat}

theorem findTags_value (sorted : offsets.Pairwise (· < ·)) (least : ∀ off ∈ offsets, 8 ≤ off) :
    (findTags block offsets).value = some off ↔
      Tried block offsets off ∧ Accepted block off := by
  induction offsets with
  | nil => simp [findTags, Tried]
  | cons first rest ih =>
  obtain ⟨before, sorted'⟩ := List.pairwise_cons.mp sorted
  have walk := @tagsWalkOk_value block first (least first List.mem_cons_self)
  rw [findTags, Reads.value_bind]
  by_cases accepted : Accepted block first
  · rw [if_pos (walk.mpr accepted), Reads.value_pure, Option.some.injEq]
    constructor
    · rintro rfl
      refine ⟨⟨List.mem_cons_self, accepted.1, ?_⟩, accepted⟩
      intro earlier member less
      rcases List.mem_cons.mp member with same | later
      · omega
      · exact absurd (before earlier later) (by omega)
    · rintro ⟨⟨member, _, none⟩, _⟩
      rcases List.mem_cons.mp member with same | later
      · exact same.symm
      · exact absurd accepted (none first List.mem_cons_self (before off later))
  have refused : ¬ (tagsWalkOk block first).value = true := fun value =>
    accepted (walk.mp value)
  rw [if_neg refused, ih sorted' fun off member => least off (List.mem_cons_of_mem _ member)]
  constructor
  · rintro ⟨⟨member, inside, none⟩, here⟩
    refine ⟨⟨List.mem_cons_of_mem _ member, inside, ?_⟩, here⟩
    intro earlier member' less
    rcases List.mem_cons.mp member' with same | later
    · rw [same]
      exact accepted
    · exact none earlier later less
  · rintro ⟨⟨member, inside, none⟩, here⟩
    rcases List.mem_cons.mp member with same | later
    · exact absurd (same ▸ here) accepted
    · exact ⟨⟨later, inside, fun earlier member' => none earlier
        (List.mem_cons_of_mem _ member')⟩, here⟩

theorem findTags_within (sorted : offsets.Pairwise (· < ·)) (least : ∀ off ∈ offsets, 8 ≤ off)
    (field : 4 ≤ sizeOf block) :
    (findTags block offsets).Within (sizeOf block) ↔
      ∀ off, Tried block offsets off → HeadersFit block off := by
  induction offsets with
  | nil => simp [findTags, Tried, Reads.within_pure]
  | cons first rest ih =>
  obtain ⟨before, sorted'⟩ := List.pairwise_cons.mp sorted
  have least' : ∀ off ∈ rest, 8 ≤ off := fun off member =>
    least off (List.mem_cons_of_mem _ member)
  have walk := @tagsWalkOk_value block first (least first List.mem_cons_self)
  have tried : first < sizeOf block → Tried block (first :: rest) first := by
    intro inside
    refine ⟨List.mem_cons_self, inside, ?_⟩
    intro earlier member less
    rcases List.mem_cons.mp member with same | later
    · omega
    · exact absurd (before earlier later) (by omega)
  rw [findTags, Reads.within_bind, tagsWalkOk_within (least first List.mem_cons_self) field]
  by_cases accepted : Accepted block first
  · rw [if_pos (walk.mpr accepted)]
    constructor
    · rintro ⟨headers, _⟩ off ⟨member, inside, none⟩
      rcases List.mem_cons.mp member with same | later
      · rw [same] at inside ⊢
        exact headers inside
      · exact absurd accepted (none first List.mem_cons_self (before off later))
    · intro every
      exact ⟨fun inside => every first (tried inside), Reads.within_pure _ _⟩
  have refused : ¬ (tagsWalkOk block first).value = true := fun value =>
    accepted (walk.mp value)
  rw [if_neg refused, ih sorted' least']
  constructor
  · rintro ⟨headers, later⟩ off ⟨member, inside, none⟩
    rcases List.mem_cons.mp member with same | member'
    · rw [same] at inside ⊢
      exact headers inside
    · exact later off ⟨member', inside, fun earlier member'' => none earlier
        (List.mem_cons_of_mem _ member'')⟩
  · intro every
    refine ⟨fun inside => every first (tried inside), ?_⟩
    rintro off ⟨member, inside, none⟩
    refine every off ⟨List.mem_cons_of_mem _ member, inside, ?_⟩
    intro earlier member' less
    rcases List.mem_cons.mp member' with same | later
    · rw [same]
      exact accepted
    · exact none earlier later less

end search

/-! ## The whole parser -/

/-- The fields as the parser sets them first. -/
def BootInfo.cleared (info : BootInfo) : BootInfo :=
  { info with hasFramebuffer := false, cmdline := none, bootLoader := none, regions := [] }

/-- The fields that a list of tags gives. -/
def extracted (block : ByteMemory) (off : Nat) (positions : List Nat) (info : BootInfo) :
    BootInfo :=
  positions.foldl (applyTag block off (mmapRegions block off positions))
    { info.cleared with tagsOffset := off }

theorem candidates_sorted : candidates.Pairwise (· < ·) := by decide

theorem eight_le_candidates : ∀ off ∈ candidates, 8 ≤ off := by decide

theorem bootmemParseMultiboot_eq (block : ByteMemory) (fuel : Nat) (info : BootInfo) :
    bootmemParseMultiboot block fuel info =
      (⟨(), [⟨0, 4⟩]⟩ : Reads Unit) >>= fun _ =>
        if sizeOf block < 32 then pure (some info.cleared)
        else findTags block candidates >>= fun found =>
          match found with
          | none => pure (some info.cleared)
          | some off =>
              readTags block off (sizeOf block - off) fuel 0
                  { info.cleared with tagsOffset := off } >>= fun info =>
                pure (info.map fun info => { info with regionCount := info.regions.length }) :=
  rfl

theorem Reads.within_field (field : 4 ≤ total) :
    (⟨(), [⟨0, 4⟩]⟩ : Reads Unit).Within total := by
  simpa [Reads.Within] using field

theorem Continues.tag_fits {budget position : Nat} (place : off + budget = total)
    (continues : Continues block off budget position) :
    off + position + tagSize block off position ≤ total := by
  have fits := continues.fits
  have header := continues.header
  omega

/-- What the parser makes of the first coherent list. -/
theorem bootmemParseMultiboot_found (large : 32 ≤ sizeOf block)
    (tried : Tried block candidates off) {positions : List Nat} {last : Nat}
    (chain : TagChain block off (sizeOf block - off) 0 positions last)
    (short : positions.length < 256) (ended : tagType block off last = multibootTagEnd)
    {fuel : Nat} (enough : 512 ≤ fuel) (info : BootInfo) :
    (bootmemParseMultiboot block fuel info).value =
        some { extracted block off positions info with
          regionCount := (extracted block off positions info).regions.length } ∧
      ((findTags block candidates).Within (sizeOf block) →
        (∀ position, positions.find? (IsMmap block off ·) = some position →
          MmapFits block off position) →
        (bootmemParseMultiboot block fuel info).Within (sizeOf block)) := by
  have bounded := sizeOf_lt block
  have least := eight_le_candidates off tried.1
  have inside := tried.2.1
  have small : sizeOf block - off + 8 ≤ 2 ^ 32 := by omega
  have found := (findTags_value candidates_sorted eight_le_candidates).mpr
    ⟨tried, inside, positions, last, chain, short, ended⟩
  have place : off + (sizeOf block - off) = sizeOf block := by omega
  have mmap : ∀ fuel, 256 ≤ fuel →
      (readMmapLoop block off (sizeOf block - off) fuel 0).value =
          some (mmapRegions block off positions) := fun fuel enough =>
    (readMmapLoop_chain small chain (by omega) ended (Nat.lt_of_lt_of_le short enough)).1
  obtain ⟨value, within⟩ := readTags_chain rfl (Nat.le_trans (by omega) large) place small chain
    (by omega) ended mmap (Nat.lt_of_lt_of_le (by omega) enough)
    { info.cleared with tagsOffset := off }
  rw [bootmemParseMultiboot_eq, Reads.value_bind, Reads.within_bind, if_neg (by omega),
    Reads.value_bind, Reads.within_bind, found]
  dsimp only
  rw [Reads.value_bind, value]
  constructor
  · rfl
  · intro searched fits
    refine ⟨Reads.within_field (by omega), searched,
      Reads.within_bind.mpr ⟨within ?_, Reads.within_pure _ _⟩⟩
    intro fuel enough
    have reads := (readMmapLoop_chain small chain (by omega) ended
      (Nat.lt_of_lt_of_le short enough)).2
    rw [place] at reads
    exact reads fun position first => mmapEntries_within (fits position first)
      ((chain.continues (List.mem_of_find?_eq_some first)).tag_fits place)

theorem extracted_regions (block : ByteMemory) (off : Nat) (positions : List Nat)
    (info : BootInfo) :
    (extracted block off positions info).regions = mmapRegions block off positions := by
  rw [extracted, foldl_applyTag_regions]
  split
  · rfl
  next none =>
    rw [mmapRegions_of_no_mmap none]
    rfl

theorem bootmemParseMultiboot_small (small : sizeOf block < 32) (fuel : Nat) (info : BootInfo) :
    bootmemParseMultiboot block fuel info = ⟨some info.cleared, [⟨0, 4⟩]⟩ := by
  rw [bootmemParseMultiboot_eq, if_pos small]
  rfl

/-- Where no list is accepted, only the headers are read. -/
theorem bootmemParseMultiboot_none (large : 32 ≤ sizeOf block)
    (none : (findTags block candidates).value = none) (fuel : Nat) (info : BootInfo) :
    (bootmemParseMultiboot block fuel info).value = some info.cleared ∧
      ((findTags block candidates).Within (sizeOf block) →
        (bootmemParseMultiboot block fuel info).Within (sizeOf block)) := by
  rw [bootmemParseMultiboot_eq, Reads.value_bind, Reads.within_bind, if_neg (by omega),
    Reads.value_bind, Reads.within_bind, none]
  exact ⟨rfl, fun searched => ⟨Reads.within_field (by omega), searched, Reads.within_pure _ _⟩⟩

theorem bootmemParseMultiboot_searches (large : 32 ≤ sizeOf block) {fuel : Nat} {info : BootInfo}
    (within : (bootmemParseMultiboot block fuel info).Within (sizeOf block)) :
    (findTags block candidates).Within (sizeOf block) := by
  rw [bootmemParseMultiboot_eq, Reads.within_bind, if_neg (by omega), Reads.within_bind] at within
  exact within.2.1

/-- The parser ends, reads inside the block, and records regions from inside their tags. -/
def ParsesInside (block : ByteMemory) : Prop :=
  ∀ info, ∃ result : BootInfo, ∀ fuel, 512 ≤ fuel →
    (bootmemParseMultiboot block fuel info).value = some result ∧
      (bootmemParseMultiboot block fuel info).Within (sizeOf block) ∧
        ∀ recorded ∈ result.regions, DecodedInside block (sizeOf block) recorded

/-- The block has room for its size, the headers of the lists that are tried end inside it, and
the sums over the entries of the map that is used do not come back from a wrap-around. -/
structure ParseFits (block : ByteMemory) : Prop where
  field : 4 ≤ sizeOf block
  headers : 32 ≤ sizeOf block → ∀ off, Tried block candidates off → HeadersFit block off
  mmap : 32 ≤ sizeOf block → ∀ off, Tried block candidates off →
    ∀ positions last, TagChain block off (sizeOf block - off) 0 positions last →
      positions.length < 256 → tagType block off last = multibootTagEnd →
        ∀ position, positions.find? (IsMmap block off ·) = some position →
          MmapFits block off position

theorem ParseFits.of_parsesInside (inside : ParsesInside block) : ParseFits block := by
  obtain ⟨result, every⟩ := inside {}
  obtain ⟨value, within, decoded⟩ := every 512 (Nat.le_refl _)
  have field : 4 ≤ sizeOf block := by
    rw [bootmemParseMultiboot_eq, Reads.within_bind] at within
    simpa [Reads.Within] using within.1
  constructor
  · exact field
  · intro large
    exact (findTags_within candidates_sorted eight_le_candidates field).mp
      (bootmemParseMultiboot_searches large within)
  intro large off tried positions last chain short ended position first
  have found := (bootmemParseMultiboot_found large tried chain short ended
    (Nat.le_refl 512) {}).1
  rw [value, Option.some.injEq] at found
  have isMmap : IsMmap block off position := by
    simpa using List.find?_some first
  rw [← mmapEntries_inside isMmap
    ((chain.continues (List.mem_of_find?_eq_some first)).tag_fits
      (Nat.add_sub_cancel' tried.2.1.le))]
  intro recorded member
  apply decoded recorded
  rw [found]
  dsimp only
  rw [extracted_regions, mmapRegions, first]
  exact member

theorem ParseFits.parsesInside (fits : ParseFits block) : ParsesInside block := by
  intro info
  by_cases small : sizeOf block < 32
  · refine ⟨info.cleared, fun fuel _ => ?_⟩
    rw [bootmemParseMultiboot_small small]
    refine ⟨rfl, ?_, fun recorded member => by cases member⟩
    simpa [Reads.Within] using fits.field
  have large : 32 ≤ sizeOf block := by omega
  have searched := (findTags_within candidates_sorted eight_le_candidates fits.field).mpr
    (fits.headers large)
  cases found : (findTags block candidates).value with
  | none =>
      refine ⟨info.cleared, fun fuel _ => ?_⟩
      obtain ⟨value, within⟩ := bootmemParseMultiboot_none large found fuel info
      exact ⟨value, within searched, fun recorded member => by cases member⟩
  | some off =>
  obtain ⟨tried, inside, positions, last, chain, short, ended⟩ :=
    (findTags_value candidates_sorted eight_le_candidates).mp found
  have mmap := fits.mmap large off tried positions last chain short ended
  refine ⟨{ extracted block off positions info with
    regionCount := (extracted block off positions info).regions.length }, ?_⟩
  intro fuel enough
  obtain ⟨value, within⟩ := bootmemParseMultiboot_found large tried chain short ended enough info
  refine ⟨value, within searched mmap, ?_⟩
  intro recorded member
  dsimp only at member
  rw [extracted_regions, mmapRegions] at member
  cases first : positions.find? (IsMmap block off ·) with
  | none =>
      rw [first] at member
      cases member
  | some position =>
  rw [first] at member
  have isMmap : IsMmap block off position := by
    simpa using List.find?_some first
  exact (mmapEntries_inside isMmap
    ((chain.continues (List.mem_of_find?_eq_some first)).tag_fits
      (Nat.add_sub_cancel' tried.2.1.le))).mpr (mmap position first) recorded member

/-- The parser is safe on the blocks that meet the condition, and on no others. -/
theorem parsesInside_iff (block : ByteMemory) : ParsesInside block ↔ ParseFits block :=
  ⟨ParseFits.of_parsesInside, ParseFits.parsesInside⟩

/-- A block of 32 bytes: a memory map without entries, whose entry size is `0xFFFFFFF8`, and
the end. -/
def wrappingBlock : ByteMemory := fun address =>
  [32, 0, 0, 0, 0, 0, 0, 0,
    6, 0, 0, 0, 16, 0, 0, 0, 0xF8, 0xFF, 0xFF, 0xFF, 0, 0, 0, 0,
    0, 0, 0, 0, 8, 0, 0, 0].getD address 0

/-- The parser takes two entries from that map, and reads up to byte 44 of the block. -/
theorem wrappingBlock_parsed :
    sizeOf wrappingBlock = 32 ∧
      ⟨40, 4⟩ ∈ (bootmemParseMultiboot wrappingBlock 512 {}).spans ∧
        (bootmemParseMultiboot wrappingBlock 512 {}).value.map (·.regionCount) = some 2 := by
  decide +kernel

theorem wrappingBlock_read_outside : ¬ ParsesInside wrappingBlock := by
  obtain ⟨size, outside, _⟩ := wrappingBlock_parsed
  intro inside
  obtain ⟨result, every⟩ := inside {}
  have within := (every 512 (Nat.le_refl _)).2.1 _ outside
  rw [size] at within
  exact absurd within (by decide)

end Charis.Boot
