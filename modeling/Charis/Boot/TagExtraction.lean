import Charis.Boot.TagWalk

/-!
# Extraction along a chain of tags

What the two loops after the validation find in a coherent list: each tag of the chain is
applied to the fields in turn, and the table of regions is filled from the first memory map.
-/

namespace Charis.Boot

open Charis.Lib

variable {block : ByteMemory} {off budget used : Nat}

/-- The tag at a position is one that `bootmem_read_mmap` takes the map from. -/
def IsMmap (block : ByteMemory) (off used : Nat) : Prop :=
  tagType block off used = multibootTagMmap ∧ 16 ≤ tagSize block off used

instance (block : ByteMemory) (off used : Nat) : Decidable (IsMmap block off used) :=
  inferInstanceAs (Decidable (_ ∧ _))

/-- The size of the entries of a memory map. -/
def entrySizeOf (block : ByteMemory) (off used : Nat) : Nat := block.readLE (off + used + 8) 4

/-- The entries of the memory map at a position. -/
def mmapEntries (block : ByteMemory) (off used : Nat) : Reads (List Recorded) :=
  if entrySizeOf block off used < 24 then pure []
  else readEntries block (off + used) (tagSize block off used) (entrySizeOf block off used)
    bootmemMaxRegions 16

/-- The regions in the first memory map of a list of tags. -/
def mmapRegions (block : ByteMemory) (off : Nat) (positions : List Nat) : List Recorded :=
  match positions.find? (IsMmap block off ·) with
  | none => []
  | some position => (mmapEntries block off position).value

theorem mmapRegions_cons_of_isMmap {positions : List Nat} (isMmap : IsMmap block off used) :
    mmapRegions block off (used :: positions) = (mmapEntries block off used).value := by
  rw [mmapRegions, List.find?_cons_of_pos (by simpa using isMmap)]

theorem mmapRegions_cons_of_not {positions : List Nat} (other : ¬ IsMmap block off used) :
    mmapRegions block off (used :: positions) = mmapRegions block off positions := by
  rw [mmapRegions, List.find?_cons_of_neg (by simpa using other), mmapRegions]

/-- The step of the loop over the tags, by the type and the size of the tag. -/
theorem readMmapLoop_succ (fuel : Nat) :
    readMmapLoop block off budget (fuel + 1) used =
      if budget < (used + 8) % 2 ^ 32 then pure (some [])
      else
        (⟨(), headerSpans off used⟩ : Reads Unit) >>= fun _ =>
          if tagType block off used = multibootTagEnd then pure (some [])
          else if tagType block off used = multibootTagMmap ∧ 16 ≤ tagSize block off used then
            (⟨(), [⟨off + used + 8, 4⟩]⟩ : Reads Unit) >>= fun _ =>
              if entrySizeOf block off used < 24 then pure (some [])
              else
                readEntries block (off + used) (tagSize block off used)
                  (entrySizeOf block off used) bootmemMaxRegions 16 >>= fun entries =>
                    pure (some entries)
          else if tagSize block off used < 8 then pure (some [])
          else readMmapLoop block off budget fuel
            ((used + paddedSize (tagSize block off used)) % 2 ^ 32) :=
  rfl

theorem readMmapLoop_end (inside : used < budget)
    (small : budget + 8 ≤ 2 ^ 32) (ended : tagType block off used = multibootTagEnd)
    (fuel : Nat) :
    (readMmapLoop block off budget (fuel + 1) used).value = some [] ∧
      (readMmapLoop block off budget (fuel + 1) used).Within (off + budget) := by
  rw [readMmapLoop_succ, Nat.mod_eq_of_lt (by omega)]
  by_cases short : budget < used + 8
  · rw [if_pos short]
    exact ⟨rfl, Reads.within_pure _ _⟩
  · rw [if_neg short, if_pos ended]
    constructor
    · rfl
    · rw [Reads.within_bind, Reads.Within, ← List.append_nil (headerSpans off used),
        within_headerSpans]
      exact ⟨⟨by omega, by simp⟩, Reads.within_pure _ _⟩

/-- The loop takes the map from the first tag that has one. -/
theorem readMmapLoop_mmap (small : budget + 8 ≤ 2 ^ 32)
    (continues : Continues block off budget used) (isMmap : IsMmap block off used)
    (fuel : Nat) :
    (readMmapLoop block off budget (fuel + 1) used).value =
        some (mmapEntries block off used).value ∧
      ((mmapEntries block off used).Within (off + budget) →
        (readMmapLoop block off budget (fuel + 1) used).Within (off + budget)) := by
  have room := continues.header_room
  have inside := continues.fits
  have large := isMmap.2
  unfold IsMmap at isMmap
  rw [readMmapLoop_succ, Nat.mod_eq_of_lt (by omega), if_neg (by omega),
    if_neg continues.other, if_pos isMmap, mmapEntries]
  constructor
  · by_cases narrow : entrySizeOf block off used < 24
    · rw [if_pos narrow, if_pos narrow]
      rfl
    · rw [if_neg narrow, if_neg narrow]
      rfl
  · intro fits
    rw [Reads.within_bind, Reads.within_bind, Reads.Within,
      ← List.append_nil (headerSpans off used), within_headerSpans]
    refine ⟨⟨by omega, by simp⟩, by simp [Reads.Within]; omega, ?_⟩
    by_cases narrow : entrySizeOf block off used < 24
    · rw [if_pos narrow]
      exact Reads.within_pure _ _
    · rw [if_neg narrow] at fits ⊢
      exact Reads.within_bind.mpr ⟨fits, Reads.within_pure _ _⟩

theorem readMmapLoop_next (small : budget + 8 ≤ 2 ^ 32)
    (continues : Continues block off budget used) (other : ¬ IsMmap block off used)
    (fuel : Nat) :
    (readMmapLoop block off budget (fuel + 1) used).value =
        (readMmapLoop block off budget fuel
          (used + paddedSize (tagSize block off used))).value ∧
      ((readMmapLoop block off budget fuel
          (used + paddedSize (tagSize block off used))).Within (off + budget) →
        (readMmapLoop block off budget (fuel + 1) used).Within (off + budget)) := by
  have room := continues.header_room
  have header := continues.header
  unfold IsMmap at other
  rw [readMmapLoop_succ, Nat.mod_eq_of_lt (by omega), if_neg (by omega),
    if_neg continues.other, if_neg other, if_neg (by omega), continues.next_mod small]
  constructor
  · rfl
  · intro later
    rw [Reads.within_bind, Reads.Within, ← List.append_nil (headerSpans off used),
      within_headerSpans]
    exact ⟨⟨by omega, by simp⟩, later⟩

theorem readMmapLoop_chain (small : budget + 8 ≤ 2 ^ 32) {positions : List Nat} {last : Nat}
    (chain : TagChain block off budget used positions last) (inside : used < budget)
    (ended : tagType block off last = multibootTagEnd) {fuel : Nat}
    (enough : positions.length < fuel) :
    (readMmapLoop block off budget fuel used).value = some (mmapRegions block off positions) ∧
      ((∀ position, positions.find? (IsMmap block off ·) = some position →
          (mmapEntries block off position).Within (off + budget)) →
        (readMmapLoop block off budget fuel used).Within (off + budget)) := by
  induction chain generalizing fuel with
  | nil =>
      cases fuel with
      | zero => cases enough
      | succ fuel =>
          obtain ⟨value, within⟩ := readMmapLoop_end inside small ended fuel
          exact ⟨value, fun _ => within⟩
  | @cons used last positions continues chain ih =>
  cases fuel with
  | zero => cases enough
  | succ fuel =>
  by_cases isMmap : IsMmap block off used
  · obtain ⟨value, within⟩ := readMmapLoop_mmap small continues isMmap fuel
    rw [mmapRegions_cons_of_isMmap isMmap]
    refine ⟨value, fun fits => within (fits used ?_)⟩
    rw [List.find?_cons_of_pos (by simpa using isMmap)]
  · obtain ⟨value, within⟩ := readMmapLoop_next small continues isMmap fuel
    rw [mmapRegions_cons_of_not isMmap, value]
    rw [List.find?_cons_of_neg (by simpa using isMmap)]
    obtain ⟨value', within'⟩ := ih continues.room ended (Nat.lt_of_succ_lt_succ enough)
    exact ⟨value', fun fits => within (within' fits)⟩

/-- What a tag changes, where the table of regions is filled with the given ones. -/
def applyTag (block : ByteMemory) (off : Nat) (regions : List Recorded) (info : BootInfo)
    (used : Nat) : BootInfo :=
  if tagType block off used = multibootTagCmdline then
    if 8 < tagSize block off used then { info with cmdline := some (off + used + 8) } else info
  else if tagType block off used = multibootTagBootLoaderName then
    if 8 < tagSize block off used then { info with bootLoader := some (off + used + 8) } else info
  else if tagType block off used = multibootTagMmap then { info with regions }
  else if tagType block off used = multibootTagFramebuffer then
    (readFramebuffer block (off + used) (tagSize block off used) info).value
  else info

theorem readFramebuffer_regions (tag size : Nat) (info : BootInfo) :
    (readFramebuffer block tag size info).value.regions = info.regions := by
  unfold readFramebuffer
  split <;> rfl

theorem applyTag_regions (regions : List Recorded) (info : BootInfo) (used : Nat) :
    (applyTag block off regions info used).regions =
      if tagType block off used = multibootTagMmap then regions else info.regions := by
  unfold applyTag
  split
  next type =>
    have other : tagType block off used ≠ multibootTagMmap := by
      rw [type]
      decide
    rw [if_neg other]
    split <;> rfl
  split
  next type =>
    have other : tagType block off used ≠ multibootTagMmap := by
      rw [type]
      decide
    rw [if_neg other]
    split <;> rfl
  split
  · rfl
  split
  · exact readFramebuffer_regions _ _ _
  · rfl

/-- The table of regions is filled as soon as there is a memory map. -/
theorem foldl_applyTag_regions (regions : List Recorded) (positions : List Nat)
    (info : BootInfo) :
    (positions.foldl (applyTag block off regions) info).regions =
      if ∃ position ∈ positions, tagType block off position = multibootTagMmap then regions
      else info.regions := by
  induction positions generalizing info with
  | nil => simp
  | cons position positions ih =>
      rw [List.foldl_cons, ih, applyTag_regions]
      by_cases here : tagType block off position = multibootTagMmap
      · rw [if_pos here, ite_self, if_pos ⟨position, List.mem_cons_self, here⟩]
      · rw [if_neg here]
        simp [here]

theorem mmapRegions_of_no_mmap {positions : List Nat}
    (none : ¬ ∃ position ∈ positions, tagType block off position = multibootTagMmap) :
    mmapRegions block off positions = [] := by
  have absent : positions.find? (IsMmap block off ·) = .none := by
    rw [List.find?_eq_none]
    intro position member isMmap
    exact none ⟨position, member, (of_decide_eq_true isMmap).1⟩
  rw [mmapRegions, absent]

theorem readFramebuffer_within (tag size : Nat) (info : BootInfo) {limit : Nat}
    (inside : tag + size ≤ limit) : (readFramebuffer block tag size info).Within limit := by
  unfold readFramebuffer
  by_cases short : size < 32
  · rw [if_pos short]
    exact Reads.within_pure _ _
  rw [if_neg short]
  simp only [Reads.within_bind, Reads.within_number, Reads.within_pure, and_true]
  refine ⟨by omega, by omega, by omega, by omega, by omega, by omega, ?_⟩
  unfold readColours
  split
  next long =>
    simp only [Reads.within_bind, Reads.within_number, Reads.within_pure, and_true]
    omega
  · exact Reads.within_pure _ _

theorem readTag_spec {total : Nat} (field : block.readLE 0 4 = total) (four : 4 ≤ total)
    (place : off + budget = total) (continues : Continues block off budget used)
    {fuel : Nat} {regions : List Recorded}
    (mmap : (readMmapLoop block off budget fuel 0).value = some regions) (info : BootInfo) :
    (readTag block fuel off (off + used) (tagType block off used) (tagSize block off used)
        info).value = some (applyTag block off regions info used) ∧
      ((readMmapLoop block off budget fuel 0).Within total →
        (readTag block fuel off (off + used) (tagType block off used) (tagSize block off used)
          info).Within total) := by
  have fits := continues.fits
  have room := continues.header_room
  have budgetOf : block.readLE 0 4 - off = budget := by omega
  rw [← budgetOf] at mmap ⊢
  unfold readTag applyTag
  split
  · exact ⟨by split <;> rfl, fun _ => Reads.within_pure _ _⟩
  split
  · exact ⟨by split <;> rfl, fun _ => Reads.within_pure _ _⟩
  split
  · constructor
    · simp only [Reads.value_bind, bootmemReadMmap, totalSize, Reads.value_number, mmap]
      rfl
    · intro within
      simp only [Reads.within_bind, bootmemReadMmap, totalSize, Reads.value_number,
        Reads.within_number]
      exact ⟨⟨by omega, within⟩, Reads.within_pure _ _⟩
  split
  · exact ⟨rfl, fun _ => Reads.within_bind.mpr
      ⟨readFramebuffer_within _ _ _ (by omega), Reads.within_pure _ _⟩⟩
  · exact ⟨rfl, fun _ => Reads.within_pure _ _⟩

/-- The step of the extraction loop, by the type and the size of the tag. -/
theorem readTags_succ (fuel : Nat) (info : BootInfo) :
    readTags block off budget (fuel + 1) used info =
      if budget < (used + 8) % 2 ^ 32 then pure (some info)
      else
        (⟨(), headerSpans off used⟩ : Reads Unit) >>= fun _ =>
          if tagType block off used = multibootTagEnd then pure (some info)
          else
            readTag block (fuel + 1) off (off + used) (tagType block off used)
              (tagSize block off used) info >>= fun result =>
                match result with
                | none => pure none
                | some info =>
                    if tagSize block off used < 8 then pure (some info)
                    else readTags block off budget fuel
                      ((used + paddedSize (tagSize block off used)) % 2 ^ 32) info :=
  rfl

theorem readTags_end (inside : used < budget) (small : budget + 8 ≤ 2 ^ 32)
    (ended : tagType block off used = multibootTagEnd) (fuel : Nat) (info : BootInfo) :
    (readTags block off budget (fuel + 1) used info).value = some info ∧
      (readTags block off budget (fuel + 1) used info).Within (off + budget) := by
  rw [readTags_succ, Nat.mod_eq_of_lt (by omega)]
  by_cases short : budget < used + 8
  · rw [if_pos short]
    exact ⟨rfl, Reads.within_pure _ _⟩
  · rw [if_neg short, if_pos ended]
    constructor
    · rfl
    · rw [Reads.within_bind, Reads.Within, ← List.append_nil (headerSpans off used),
        within_headerSpans]
      exact ⟨⟨by omega, by simp⟩, Reads.within_pure _ _⟩

theorem readTags_chain {total : Nat} (field : block.readLE 0 4 = total) (four : 4 ≤ total)
    (place : off + budget = total) (small : budget + 8 ≤ 2 ^ 32) {positions : List Nat}
    {last : Nat} (chain : TagChain block off budget used positions last)
    (inside : used < budget) (ended : tagType block off last = multibootTagEnd)
    {regions : List Recorded} {enough : Nat}
    (mmap : ∀ fuel, enough ≤ fuel →
      (readMmapLoop block off budget fuel 0).value = some regions)
    {fuel : Nat} (large : enough + positions.length < fuel) (info : BootInfo) :
    (readTags block off budget fuel used info).value =
        some (positions.foldl (applyTag block off regions) info) ∧
      ((∀ fuel, enough ≤ fuel → (readMmapLoop block off budget fuel 0).Within total) →
        (readTags block off budget fuel used info).Within total) := by
  induction chain generalizing fuel info with
  | nil =>
      cases fuel with
      | zero => cases large
      | succ fuel =>
          obtain ⟨value, within⟩ := readTags_end inside small ended fuel info
          rw [place] at within
          exact ⟨value, fun _ => within⟩
  | @cons used last positions continues chain ih =>
  cases fuel with
  | zero => cases large
  | succ fuel =>
  rw [List.length_cons] at large
  have room := continues.header_room
  have header := continues.header
  obtain ⟨value, within⟩ := readTag_spec field four place continues
    (mmap (fuel + 1) (by omega)) info
  rw [readTags_succ, Nat.mod_eq_of_lt (by omega), if_neg (by omega),
    if_neg continues.other, continues.next_mod small]
  have rest : enough + positions.length < fuel := by omega
  obtain ⟨value', within'⟩ := ih continues.room ended rest
    (applyTag block off regions info used)
  constructor
  · rw [Reads.value_bind, Reads.value_bind, value]
    dsimp only
    rw [if_neg (by omega), value', List.foldl_cons]
  · intro reads
    rw [Reads.within_bind, Reads.within_bind, value, Reads.Within,
      ← List.append_nil (headerSpans off used), within_headerSpans]
    dsimp only
    rw [if_neg (by omega)]
    exact ⟨⟨by omega, by simp⟩, within (reads _ (by omega)), within' reads⟩

end Charis.Boot
