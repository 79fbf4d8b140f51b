import Charis.Fs.Tables

/-!
# What a creation leaves behind

A file that was created is found by its path, it cannot be created once more, and the names in
the directory stay different.  All of this depends on the path, which has to be one that fits
into an entry, and on what is behind the end of the directory.
-/

namespace Charis.Fs

open Charis.Lib

section Searching

variable {path : List UInt8} {disk : Nat → ByteMemory} {slots before behind : List Slot}
  {slot : Slot} {free : Option Slot}

/-- An entry is in use and its name does not match, so that a walk goes on. -/
def Passed (path : List UInt8) (disk : Nat → ByteMemory) (slot : Slot) : Prop :=
  disk slot.sector (32 * slot.index) ≠ 0 ∧
    ¬nameMatches path (fun offset => disk slot.sector (32 * slot.index + offset)) = true

/-- A search that does not end passes all entries and remembers a deleted one at most. -/
theorem searchSlots_going {free' : Option Slot}
    (result : searchSlots path disk slots free = .going free') :
    (∀ p ∈ slots, Passed path disk p) ∧
      (free' = free ∨ ∃ slot ∈ slots, free' = some slot ∧
        disk slot.sector (32 * slot.index) = 0xE5) := by
  induction slots generalizing free with
  | nil =>
      cases result
      exact ⟨nofun, .inl rfl⟩
  | cons slot rest ih =>
  rw [searchSlots] at result
  split at result
  · cases result
  next used =>
  dsimp only at result
  split at result
  · cases result
  next apart =>
  obtain ⟨passed, remembered⟩ := ih result
  constructor
  · intro p member
    cases member with
    | head => exact ⟨used, apart⟩
    | tail _ member => exact passed p member
  · rcases remembered with same | ⟨found, member, same, deleted⟩
    · split at same
      next here => exact .inr ⟨slot, List.mem_cons_self, same, here.1⟩
      next => exact .inl same
    · exact .inr ⟨found, List.mem_cons_of_mem _ member, same, deleted⟩

theorem searchSlots_stopped (result : searchSlots path disk slots free = .stopped slot) :
    ∃ before behind, slots = before ++ slot :: behind ∧ (∀ p ∈ before, Passed path disk p) ∧
      disk slot.sector (32 * slot.index) = 0 := by
  induction slots generalizing free with
  | nil => cases result
  | cons first rest ih =>
  rw [searchSlots] at result
  split at result
  next unused =>
    cases result
    refine ⟨[], rest, rfl, ?_, unused⟩
    intro p member
    cases member
  next used =>
  dsimp only at result
  split at result
  · cases result
  next apart =>
  obtain ⟨before, behind, same, passed, unused⟩ := ih result
  refine ⟨first :: before, behind, by rw [same, List.cons_append], ?_, unused⟩
  intro p member
  cases member with
  | head => exact ⟨used, apart⟩
  | tail _ member => exact passed p member

/-- The entry that a search leads to: all entries before it are passed, and it is unused, or it
is deleted and all entries are passed. -/
theorem searchSlots_slot (result : (searchSlots path disk slots none).slot = some slot) :
    ∃ before behind, slots = before ++ slot :: behind ∧ slot ∉ before ∧
      (∀ p ∈ before, Passed path disk p) ∧
      (disk slot.sector (32 * slot.index) = 0 ∨
        disk slot.sector (32 * slot.index) = 0xE5 ∧ ∀ p ∈ behind, Passed path disk p) := by
  cases searched : searchSlots path disk slots none with
  | failed =>
      rw [searched] at result
      cases result
  | stopped stop =>
      rw [searched] at result
      cases result
      obtain ⟨before, behind, same, passed, unused⟩ := searchSlots_stopped searched
      refine ⟨before, behind, same, ?_, passed, .inl unused⟩
      intro member
      exact (passed slot member).1 unused
  | going found =>
  rw [searched] at result
  have result : found = some slot := result
  obtain ⟨passed, remembered⟩ := searchSlots_going searched
  rcases remembered with same | ⟨other, member, same, deleted⟩
  · rw [same] at result
    cases result
  · rw [same] at result
    cases result
    obtain ⟨before, behind, split, absent⟩ := List.eq_append_cons_of_mem member
    refine ⟨before, behind, split, absent, ?_, .inr ⟨deleted, ?_⟩⟩
    · intro p inside
      exact passed p (split ▸ List.mem_append_left _ inside)
    · intro p inside
      exact passed p (split ▸ List.mem_append_right _ (List.mem_cons_of_mem _ inside))

theorem searchSlots_failed
    (used : ∀ p ∈ before, disk p.sector (32 * p.index) ≠ 0)
    (here : disk slot.sector (32 * slot.index) ≠ 0)
    (matching : nameMatches path
      (fun offset => disk slot.sector (32 * slot.index + offset)) = true) :
    searchSlots path disk (before ++ slot :: behind) free = .failed := by
  induction before generalizing free with
  | nil =>
      rw [List.nil_append, searchSlots, if_neg here]
      exact if_pos matching
  | cons first rest ih =>
      rw [List.cons_append, searchSlots, if_neg (used first List.mem_cons_self)]
      dsimp only
      split
      · rfl
      · exact ih fun p member => used p (List.mem_cons_of_mem _ member)

end Searching

section Opening

variable {volume : Volume} {path : List UInt8} {disk : Nat → ByteMemory}
  {before behind : List Slot} {slot : Slot}

/-- An entry that `fs_open` finds. -/
structure Hit (path : List UInt8) (disk : Nat → ByteMemory) (slot : Slot) : Prop where
  used : disk slot.sector (32 * slot.index) ≠ 0
  live : disk slot.sector (32 * slot.index) ≠ 0xE5
  attr : disk slot.sector (32 * slot.index + 11) &&& 0x18 = 0
  name : nameMatches path (fun offset => disk slot.sector (32 * slot.index + offset)) = true

theorem findEntry_none {sector remaining index : Nat}
    (passed : ∀ p ∈ slotsOf sector index remaining, Passed path disk p) :
    findEntry path (disk sector) remaining index = none := by
  induction remaining generalizing index with
  | zero => rfl
  | succ remaining ih =>
      rw [slotsOf, List.range'_succ, List.map_cons] at passed
      obtain ⟨used, apart⟩ := passed ⟨sector, index⟩ List.mem_cons_self
      rw [findEntry, if_neg used, if_pos (.inr (.inr (by simpa using apart)))]
      exact ih fun p member => passed p (List.mem_cons_of_mem _ member)

theorem findEntry_some {sector remaining index : Nat}
    (split : slotsOf sector index remaining = before ++ slot :: behind)
    (passed : ∀ p ∈ before, Passed path disk p) (hit : Hit path disk slot) :
    findEntry path (disk sector) remaining index = some slot.index := by
  induction remaining generalizing index before with
  | zero => cases before <;> cases split
  | succ remaining ih =>
  rw [slotsOf, List.range'_succ, List.map_cons] at split
  cases before with
  | nil =>
      cases split
      rw [findEntry, if_neg hit.used, if_neg]
      rintro (deleted | special | apart)
      · exact hit.live deleted
      · exact special hit.attr
      · have := hit.name
        simp [this] at apart
  | cons first before =>
      rw [List.cons_append, List.cons.injEq] at split
      obtain ⟨used, apart⟩ := passed first List.mem_cons_self
      rw [← split.1] at used apart
      rw [findEntry, if_neg used, if_pos (.inr (.inr (by simpa using apart)))]
      exact ih split.2 fun p member => passed p (List.mem_cons_of_mem _ member)

theorem findEntry_hit {buffer : ByteMemory} {sector remaining index found : Nat}
    (same : disk sector = buffer)
    (result : findEntry path buffer remaining index = some found) :
    Hit path disk ⟨sector, found⟩ := by
  induction remaining generalizing index with
  | zero => cases result
  | succ remaining ih =>
  rw [findEntry] at result
  split at result
  · cases result
  next used =>
  split at result
  · exact ih result
  next proper =>
    cases result
    simp only [not_or, not_not, Bool.not_eq_true', Bool.not_eq_false] at proper
    rw [← same] at used proper
    exact ⟨used, proper.1, proper.2.1, proper.2.2⟩

/-- What is in an entry is in the file that `fs_open` makes of it. -/
structure FileAt (volume : Volume) (disk : Nat → ByteMemory) (slot : Slot) (file : File) :
    Prop where
  sector : clusterToSector volume file.dirCluster + file.dirSector = slot.sector
  index : file.dirIndex = slot.index
  cluster : file.cluster = (disk slot.sector).readLE (32 * slot.index + 20) 2 * 2 ^ 16 +
    (disk slot.sector).readLE (32 * slot.index + 26) 2
  size : file.size = (disk slot.sector).readLE (32 * slot.index + 28) 4
  pos : file.pos = 0

/-- A walk over the sectors of a cluster passes entries and finds one that is hit. -/
theorem fileIn_of_split {cluster s length : Nat}
    (split : slotsFrom (clusterToSector volume cluster) s length = before ++ slot :: behind)
    (passed : ∀ p ∈ before, Passed path disk p) (hit : Hit path disk slot) :
    ∃ file, (List.range' s length).findSome? (fileIn volume path disk cluster) = some file ∧
      FileAt volume disk slot file := by
  apply findSome?_of_split _ _ split passed
  · intro s passed
    rw [fileIn, findEntry_none passed]
    rfl
  intro s before behind split passed
  have sector : slot.sector = clusterToSector volume cluster + s := by
    have member : slot ∈ slotsOf (clusterToSector volume cluster + s) 0 16 :=
      split ▸ List.mem_append_right _ List.mem_cons_self
    obtain ⟨index, -, rfl⟩ := List.mem_map.mp member
    rfl
  rw [fileIn, findEntry_some split passed hit]
  refine ⟨_, rfl, ?_⟩
  constructor
  · exact sector.symm
  · rfl
  · rw [sector]
  · rw [sector]
  · rfl

/-- The same over clusters. -/
theorem openSlots_of_split {clusters : List Nat}
    (split : slotsIn volume clusters = before ++ slot :: behind)
    (passed : ∀ p ∈ before, Passed path disk p) (hit : Hit path disk slot) :
    ∃ file, (clusters.findSome? fun cluster =>
        (List.range' 0 volume.sectorsPerCluster).findSome? (fileIn volume path disk cluster)) =
          some file ∧
      FileAt volume disk slot file := by
  apply findSome?_of_split _ _ split passed
  · intro cluster passed
    rw [List.findSome?_eq_none_iff]
    intro s inside
    rw [fileIn, findEntry_none]
    · rfl
    · intro p member
      exact passed p (List.mem_flatMap.mpr ⟨s, inside, member⟩)
  · intro cluster before behind split passed
    exact fileIn_of_split split passed hit

/-- A file that is found is that of an entry that is hit. -/
theorem hit_of_openSlots {clusters : List Nat} {file : File}
    (found : (clusters.findSome? fun cluster =>
      (List.range' 0 volume.sectorsPerCluster).findSome? (fileIn volume path disk cluster)) =
        some file) :
    Hit path disk ⟨clusterToSector volume file.dirCluster + file.dirSector, file.dirIndex⟩ := by
  obtain ⟨cluster, -, found⟩ := List.exists_of_findSome?_eq_some found
  obtain ⟨s, -, found⟩ := List.exists_of_findSome?_eq_some found
  obtain ⟨index, entry, rfl⟩ := Option.map_eq_some_iff.mp found
  exact findEntry_hit rfl entry

end Opening

section NewEntry

variable {path : List UInt8} {cluster index : Nat} {buffer : ByteMemory}

theorem length_shortName (path : List UInt8) : (shortName path).length = 11 := by
  have base : ((path.takeWhile (· ≠ 46)).take 8).length ≤ 8 := List.length_take_le _ _
  rw [shortName]
  simp only [List.length_append, List.length_map, List.length_replicate]
  split
  · have := List.length_take_le 3
      ((path.drop ((path.takeWhile (· ≠ 46)).take 8).length).drop 1)
    omega
  · simp only [List.length_nil]
    omega

/-- The other entries of the sector stay. -/
theorem newEntry_of_outside {address : Nat}
    (outside : address < 32 * index ∨ 32 * index + 32 ≤ address) :
    newEntry path cluster buffer index address = buffer address := by
  have length := length_shortName path
  rw [newEntry, ByteMemory.writeLE_of_outside (by omega), ByteMemory.writeLE_of_outside (by omega),
    ByteMemory.writeByte_of_ne (by omega), ByteMemory.storeBytes_of_outside (by omega),
    ByteMemory.fill_of_outside (by omega)]

theorem newEntry_name {offset : Nat} (inside : offset < 11) :
    newEntry path cluster buffer index (32 * index + offset) = (shortName path).getD offset 0 := by
  have length := length_shortName path
  rw [newEntry, ByteMemory.writeLE_of_outside (by omega), ByteMemory.writeLE_of_outside (by omega),
    ByteMemory.writeByte_of_ne (by omega), ByteMemory.storeBytes_of_inside (by omega) (by omega),
    Nat.add_sub_cancel_left]

theorem newEntry_attr : newEntry path cluster buffer index (32 * index + 11) = 0x20 := by
  rw [newEntry, ByteMemory.writeLE_of_outside (by omega), ByteMemory.writeLE_of_outside (by omega),
    ByteMemory.writeByte_self]

theorem newEntry_cluster (small : cluster < 2 ^ 28) :
    (newEntry path cluster buffer index).readLE (32 * index + 20) 2 * 2 ^ 16 +
      (newEntry path cluster buffer index).readLE (32 * index + 26) 2 = cluster := by
  rw [newEntry, ByteMemory.readLE_writeLE_self,
    ByteMemory.readLE_writeLE_of_apart (by omega), ByteMemory.readLE_writeLE_self]
  omega

theorem newEntry_size :
    (newEntry path cluster buffer index).readLE (32 * index + 28) 4 = 0 := by
  have length := length_shortName path
  apply ByteMemory.readLE_zero_of_bytes
  intro offset below
  rw [newEntry, ByteMemory.writeLE_of_outside (by omega), ByteMemory.writeLE_of_outside (by omega),
    ByteMemory.writeByte_of_ne (by omega), ByteMemory.storeBytes_of_outside (by omega),
    ByteMemory.fill_of_inside (by omega) (by omega)]

theorem loadBytes_newEntry :
    (newEntry path cluster buffer index).loadBytes (32 * index) 11 = shortName path := by
  apply List.ext_getElem
  · rw [ByteMemory.length_loadBytes, length_shortName]
  · intro offset inside inside'
    rw [ByteMemory.length_loadBytes] at inside
    have stored := @ByteMemory.getD_loadBytes (newEntry path cluster buffer index) (32 * index)
      11 offset inside
    rw [newEntry_name inside, List.getD_eq_getElem _ _ (by
      rwa [ByteMemory.length_loadBytes]), List.getD_eq_getElem _ _ inside'] at stored
    exact stored

end NewEntry

/-! ## The directory after a creation -/

/-- What a creation in an entry does to the disk: the entry is the new one, the other entries
of the directory and the links between clusters stay. -/
structure Created (volume : Volume) (path : List UInt8) (slot : Slot) (cluster : Nat)
    (before after : Nat → ByteMemory) : Prop where
  small : cluster < 2 ^ 28
  here : ∃ buffer, after slot.sector = newEntry path cluster buffer slot.index
  others : ∀ other ∈ rootSlots volume before, other ≠ slot → ∀ offset < 32,
    after other.sector (32 * other.index + offset) =
      before other.sector (32 * other.index + offset)
  links : ∀ cluster, linkOf volume after cluster = linkOf volume before cluster

section AfterCreation

variable {volume : Volume} {path : List UInt8} {slot : Slot} {cluster : Nat}
  {before after : Nat → ByteMemory}

theorem walk_congr (same : ∀ cluster, linkOf volume after cluster = linkOf volume before cluster)
    (remaining cluster : Nat) :
    walk volume after remaining cluster = walk volume before remaining cluster := by
  induction remaining generalizing cluster with
  | zero => rfl
  | succ remaining ih => rw [walk, walk, same, ih]

theorem Created.rootSlots_eq (created : Created volume path slot cluster before after) :
    rootSlots volume after = rootSlots volume before := by
  rw [rootSlots, rootSlots, rootClusters, rootClusters, walk_congr created.links]

theorem Created.nameAt_eq (created : Created volume path slot cluster before after) :
    nameAt after slot = shortName path := by
  obtain ⟨buffer, same⟩ := created.here
  rw [nameAt, same, loadBytes_newEntry]

/-- The first character of the new name. -/
theorem Created.first (created : Created volume path slot cluster before after) :
    after slot.sector (32 * slot.index) = (shortName path).getD 0 0 := by
  obtain ⟨buffer, same⟩ := created.here
  rw [same]
  exact @newEntry_name path cluster slot.index buffer 0 (by omega)

theorem Created.bytes_of_ne (created : Created volume path slot cluster before after)
    {other : Slot} (member : other ∈ rootSlots volume before) (different : other ≠ slot) :
    after other.sector (32 * other.index) = before other.sector (32 * other.index) :=
  created.others other member different 0 (by omega)

theorem Created.nameAt_of_ne (created : Created volume path slot cluster before after)
    {other : Slot} (member : other ∈ rootSlots volume before) (different : other ≠ slot) :
    nameAt after other = nameAt before other := by
  apply ByteMemory.loadBytes_congr
  intro address above below
  obtain ⟨offset, rfl⟩ := Nat.exists_eq_add_of_le above
  exact created.others other member different offset (by omega)

theorem Created.passed (created : Created volume path slot cluster before after)
    {other : Slot} (member : other ∈ rootSlots volume before) (different : other ≠ slot) :
    Passed path after other ↔ Passed path before other := by
  rw [Passed, Passed, nameMatches_at, nameMatches_at, created.bytes_of_ne member different,
    created.nameAt_of_ne member different]

/-- The entries of the directory, with the new one among them. -/
theorem Created.cellAt_eq (created : Created volume path slot cluster before after)
    (used : (shortName path).getD 0 0 ≠ 0) (live : (shortName path).getD 0 0 ≠ 0xE5) :
    ∀ other ∈ rootSlots volume before, cellAt after other =
      Function.update (cellAt before) slot (.used (shortName path)) other := by
  intro other member
  by_cases same : other = slot
  · rw [same, Function.update_self, cellAt, created.first, if_neg used, if_neg live,
      created.nameAt_eq]
  · rw [Function.update_of_ne same, cellAt, cellAt, created.bytes_of_ne member same,
      created.nameAt_of_ne member same]

/-- The directory is in the sectors of clusters. -/
theorem mem_slotsIn {clusters : List Nat} (member : slot ∈ slotsIn volume clusters) :
    ∃ cluster ∈ clusters, ∃ s < volume.sectorsPerCluster,
      slot.sector = clusterToSector volume cluster + s := by
  obtain ⟨cluster, inside, member⟩ := List.mem_flatMap.mp member
  obtain ⟨s, below, member⟩ := List.mem_flatMap.mp member
  obtain ⟨index, -, rfl⟩ := List.mem_map.mp member
  refine ⟨cluster, inside, s, ?_, rfl⟩
  rw [List.mem_range'_1] at below
  omega

theorem valid_of_mem_walk {disk : Nat → ByteMemory} {remaining first : Nat}
    (member : cluster ∈ walk volume disk remaining first) :
    clusterValid volume cluster = true := by
  induction remaining generalizing first with
  | zero => cases member
  | succ remaining ih =>
  rw [walk] at member
  split at member
  next valid =>
    cases member with
    | head => exact valid
    | tail _ member => exact ih member
  next => cases member

theorem Geometry.not_tableSector (geometry : Geometry volume)
    (valid : clusterValid volume cluster = true) (s : Nat) :
    ¬TableSector volume (clusterToSector volume cluster + s) := by
  have tables := geometry.tables
  have start := (geometry.clusterToSector_eq valid).1
  intro of_table
  generalize same : clusterToSector volume cluster + s = sector at of_table
  cases of_table with
  | table valid' =>
      have row := (geometry.fatSector_eq valid').2
      have : volume.fatSize32 ≤ volume.numFats * volume.fatSize32 :=
        Nat.le_mul_of_pos_left _ geometry.copies
      omega
  | mirror valid' two =>
      have row := (geometry.fatSector_eq valid').2
      have := geometry.mirror two
      omega

theorem linkOf_congr
    (same : ∀ cluster, clusterValid volume cluster = true →
      after (fatSector volume cluster) = before (fatSector volume cluster)) (cluster : Nat) :
    linkOf volume after cluster = linkOf volume before cluster := by
  rw [linkOf, linkOf]
  split
  · rfl
  next proper =>
  split
  · rfl
  have valid : clusterValid volume cluster = true := by
    simp only [Bool.or_eq_true, Bool.not_eq_true', not_or, Bool.not_eq_false] at proper
    exact proper.2
  rw [same cluster valid]

/-- An entry that was free and is marked as the end of a chain leads nowhere, as before. -/
theorem TableChange.linkOf_eq {sectors : Set Nat}
    (change : TableChange volume sectors cluster endOfChain before after)
    (free : entryIn volume before cluster = 0) (other : Nat) :
    linkOf volume after other = linkOf volume before other := by
  rw [linkOf, linkOf]
  split
  · rfl
  next proper =>
  split
  · rfl
  have valid : clusterValid volume other = true := by
    simp only [Bool.or_eq_true, Bool.not_eq_true', not_or, Bool.not_eq_false] at proper
    exact proper.2
  have entry := change.entries other valid
  rw [← entryIn, ← entryIn, entry]
  by_cases same : other = cluster
  · rw [if_pos same, same, free]
    rfl
  · rw [if_neg same]

end AfterCreation

/-- The sectors of the tables and of the root directory. -/
def createSectors (volume : Volume) (disk : Nat → ByteMemory) : Set Nat :=
  {sector | TableSector volume sector ∨ ∃ slot ∈ rootSlots volume disk, slot.sector = sector}

section Creation

variable {volume : Volume} {path : List UInt8} {drive : Drive}

theorem findSlot_eq (geometry : Geometry volume) (ready : drive.Ready) :
    ∃ drive', findSlot volume path drive =
        ((searchSlots (relative path) drive.shown (rootSlots volume drive.shown) none).slot,
          drive') ∧
      Quiet drive drive' :=
  searchLoop_eq geometry ready

theorem fsOpen_eq (geometry : Geometry volume) (ready : drive.Ready) :
    ∃ drive', fsOpen volume path drive =
        ((rootClusters volume drive.shown).findSome? fun cluster =>
          (List.range' 0 volume.sectorsPerCluster).findSome?
            (fileIn volume (relative path) drive.shown cluster), drive') ∧
      Quiet drive drive' := by
  rw [fsOpen, if_neg (by simp [geometry.mounted])]
  exact openLoop_eq geometry ready

theorem write_of_ready (ready : drive.Ready) (lba : Nat) (buffer : ByteMemory) :
    ∃ drive', ataWriteSector drive lba buffer = (true, drive') ∧ drive'.Ready ∧
      ∀ other, drive'.shown other =
        if lba28 other = lba28 lba then buffer else drive.shown other := by
  refine ⟨{ drive with
    transfers := drive.transfers + 1
    sectors := Function.update drive.sectors (lba28 lba) buffer }, ?_, ?_, ?_⟩
  · rw [ataWriteSector, ready _ le_rfl]
  · intro transfer later
    exact ready transfer (Nat.le_of_succ_le later)
  · intro other
    exact Function.update_apply ..

/-- The new entry is stored after a cluster was taken. -/
theorem created_of_stores (geometry : Geometry volume)
    (apart : Set.InjOn lba28 (createSectors volume drive.shown)) {slot : Slot} {cluster : Nat}
    {disk disk' : Nat → ByteMemory} (member : slot ∈ rootSlots volume drive.shown)
    (valid : clusterValid volume cluster = true)
    (free : entryIn volume drive.shown cluster = 0)
    (change : TableChange volume (createSectors volume drive.shown) cluster endOfChain
      drive.shown disk)
    (stored : ∀ other, disk' other = if lba28 other = lba28 slot.sector then
      newEntry path cluster (disk slot.sector) slot.index else disk other) :
    Created volume path slot cluster drive.shown disk' := by
  have no_table : ∀ other ∈ rootSlots volume drive.shown, ¬TableSector volume other.sector := by
    intro other inside
    obtain ⟨root, of_root, s, -, sector⟩ := mem_slotsIn inside
    rw [sector]
    exact geometry.not_tableSector (valid_of_mem_walk of_root) s
  have kept : ∀ other ∈ rootSlots volume drive.shown,
      disk other.sector = drive.shown other.sector :=
    fun other inside => change.elsewhere _ (.inr ⟨other, inside, rfl⟩) (no_table other inside)
  constructor
  · have := geometry.clusters
    have := bounds_of_clusterValid valid
    omega
  · exact ⟨disk slot.sector, by rw [stored, if_pos rfl]⟩
  · intro other inside different offset below
    rw [stored]
    split
    next aliased =>
      have sector : other.sector = slot.sector :=
        apart (.inr ⟨other, inside, rfl⟩) (.inr ⟨slot, member, rfl⟩) aliased
      have index : other.index ≠ slot.index := by
        intro index
        apply different
        cases other
        cases slot
        cases sector
        cases index
        rfl
      rw [newEntry_of_outside (by omega), kept slot member, sector]
    next => rw [kept other inside]
  · intro other
    rw [← change.linkOf_eq free other]
    apply linkOf_congr
    intro other valid'
    rw [stored, if_neg]
    intro aliased
    have sector : fatSector volume other = slot.sector :=
      apart (.inl (.table valid')) (.inr ⟨slot, member, rfl⟩) aliased
    exact no_table slot member (sector ▸ .table valid')

/-- A creation that succeeds has found an entry, taken a cluster and written the entry. -/
theorem fsCreate_created (geometry : Geometry volume) (ready : drive.Ready)
    (apart : Set.InjOn lba28 (createSectors volume drive.shown))
    (created : (fsCreate volume path drive).1 = true) :
    ∃ slot cluster,
      (searchSlots (relative path) drive.shown (rootSlots volume drive.shown) none).slot =
        some slot ∧
      (findSlot volume path drive).1 = some slot ∧
      (fatAllocCluster volume (findSlot volume path drive).2).1 = some cluster ∧
      (fsCreate volume path drive).2.Ready ∧
      Created volume (relative path) slot cluster drive.shown
        (fsCreate volume path drive).2.shown := by
  obtain ⟨drive₁, searched, quiet⟩ := @findSlot_eq volume path drive geometry ready
  have sectors : Apart volume (createSectors volume drive.shown) := ⟨apart, fun _ => .inl⟩
  rw [fsCreate] at created ⊢
  split at created
  · cases created
  next proper =>
  rw [if_neg proper, searched]
  rw [searched] at created
  dsimp only at created ⊢
  cases found :
    (searchSlots (relative path) drive.shown (rootSlots volume drive.shown) none).slot with
  | none =>
      rw [found] at created
      cases created
  | some slot =>
  rw [found] at created
  obtain ⟨before, behind, split, -⟩ := searchSlots_slot found
  have member : slot ∈ rootSlots volume drive.shown :=
    split ▸ List.mem_append_right _ List.mem_cons_self
  have allocated := @fatAllocCluster_effect volume (createSectors volume drive.shown) geometry
    sectors drive₁
  have later := @Later.findFree volume drive₁ volume.totalClusters 2
  rw [← fatAllocCluster] at later
  dsimp only at created ⊢
  generalize fatAllocCluster volume drive₁ = result at created allocated later ⊢
  obtain ⟨taken, drive₂⟩ := result
  cases taken with
  | none => cases created
  | some cluster =>
  rcases allocated with ⟨none, -⟩ | ⟨free, valid, is_free, change, same⟩
  · cases none
  cases same cluster rfl
  obtain ⟨drive₃, read, quiet₃⟩ := read_of_ready (later.ready quiet.ready) slot.sector
  obtain ⟨drive₄, written, ready₄, stored⟩ := write_of_ready quiet₃.ready slot.sector
    (newEntry (relative path) cluster (drive₂.shown slot.sector) slot.index)
  rw [quiet.shown] at is_free change
  rw [quiet₃.shown] at stored
  dsimp only
  rw [read]
  dsimp only
  rw [written]
  exact ⟨slot, cluster, rfl, rfl, rfl, ready₄,
    created_of_stores geometry apart member valid is_free change stored⟩

end Creation

/-! ## The law -/

/-- What is expected after a creation that succeeds: the file is found where it was created,
it is not created once more, and the names of the directory are different. -/
structure CreateLaw (volume : Volume) (path : List UInt8) (drive : Drive) : Prop where
  opens : ∃ slot cluster file,
    (findSlot volume path drive).1 = some slot ∧
    (fatAllocCluster volume (findSlot volume path drive).2).1 = some cluster ∧
    (fsOpen volume path (fsCreate volume path drive).2).1 = some file ∧
    clusterToSector volume file.dirCluster + file.dirSector = slot.sector ∧
    file.dirIndex = slot.index ∧ file.cluster = cluster ∧ file.size = 0
  again : (fsCreate volume path (fsOpen volume path (fsCreate volume path drive).2).2).1 = false
  distinct : DistinctNames volume (fsCreate volume path drive).2

/-- A path that fits into an entry and does not make it look deleted, and names behind the end
of the directory that stay different when the end moves. -/
structure CreatesName (volume : Volume) (path : List UInt8) (drive : Drive) : Prop where
  fits : FitsEntry (relative path)
  live : (relative path).head? ≠ some 0xE5
  fresh : Cell.Fresh (cellAt drive.shown) (rootSlots volume drive.shown)
    (shortName (relative path))

section Law

variable {volume : Volume} {path : List UInt8} {drive : Drive}

theorem toNat_fatUpper {char : UInt8} (lower : 97 ≤ char ∧ char ≤ 122) :
    (fatUpper char).toNat = char.toNat - 32 := by
  obtain ⟨least, most⟩ := lower
  rw [UInt8.le_iff_toNat_le] at least most
  rw [fatUpper, if_pos (by rw [UInt8.le_iff_toNat_le, UInt8.le_iff_toNat_le]; exact ⟨least, most⟩),
    UInt8.toNat_add, UInt8.toNat_sub_of_le _ _ (UInt8.le_iff_toNat_le.mpr least)]
  simp only [UInt8.reduceToNat] at *
  omega

/-- The conversion of letters leaves other characters alone and makes none of them. -/
theorem fatUpper_eq_iff {char value : UInt8} (special : value.toNat < 65 ∨ 122 < value.toNat) :
    fatUpper char = value ↔ char = value := by
  by_cases lower : 97 ≤ char ∧ char ≤ 122
  · have upper := toNat_fatUpper lower
    obtain ⟨least, most⟩ := lower
    rw [UInt8.le_iff_toNat_le] at least most
    simp only [UInt8.reduceToNat] at least most
    rw [← UInt8.toNat_inj, ← UInt8.toNat_inj, upper]
    omega
  · rw [fatUpper, if_neg lower]

/-- The first character of a name is that of the path. -/
theorem FitsEntry.first (fits : FitsEntry path) :
    ∃ char, path.head? = some char ∧ (shortName path).getD 0 0 = fatUpper char := by
  have nonempty := fits.base
  cases path with
  | nil => exact absurd rfl nonempty
  | cons char rest =>
  refine ⟨char, rfl, ?_⟩
  have no_dot : char ≠ 46 := by
    rintro rfl
    exact nonempty rfl
  have base : baseName (char :: rest) = char :: baseName rest := by
    simp [baseName, no_dot]
  rw [fits.shortName_eq, base]
  rfl

/-- The entry that a creation takes is one that a name can be put into. -/
theorem vacant_of_search {disk : Nat → ByteMemory} {slots : List Slot} {slot : Slot}
    (found : (searchSlots path disk slots none).slot = some slot) :
    Cell.Vacant (cellAt disk) slots slot ∧
      (FitsEntry path → ∀ p ∈ Cell.opened (cellAt disk) slots,
        cellAt disk p ≠ .used (shortName path)) := by
  obtain ⟨before, behind, split, absent, passed, is_free⟩ := searchSlots_slot found
  have used : ∀ {p}, Passed path disk p → cellAt disk p ≠ .unused :=
    fun passed unused => passed.1 (cellAt_eq_unused.mp unused)
  have unlike : FitsEntry path → ∀ {p}, Passed path disk p →
      cellAt disk p ≠ .used (shortName path) := by
    intro fits p passed named
    exact passed.2 (nameMatches_at.mpr ⟨fits, (nameAt_of_cellAt named).1⟩)
  constructor
  · refine ⟨before, behind, split, absent, fun p member => used (passed p member), ?_⟩
    rcases is_free with unused | ⟨deleted, passed_behind⟩
    · exact .inl (cellAt_eq_unused.mpr unused)
    · right
      refine ⟨?_, fun p member => used (passed_behind p member)⟩
      rw [cellAt, deleted, if_neg (by decide), if_pos rfl]
  intro fits p member
  rw [split] at member
  rcases is_free with unused | ⟨deleted, passed_behind⟩
  · exact unlike fits (passed p
      (Cell.mem_before_of_mem_opened (cellAt_eq_unused.mpr unused) member))
  · rcases List.mem_append.mp (Cell.mem_of_mem_opened member) with early | late
    · exact unlike fits (passed p early)
    rcases List.mem_cons.mp late with rfl | late
    · rw [cellAt, deleted, if_neg (by decide), if_pos rfl]
      intro same
      cases same
    · exact unlike fits (passed_behind p late)

/-- A creation that succeeds has its effect exactly if the path is one that makes a name and
the names behind the end of the directory stay different. -/
theorem create_law_iff (mounted : Mounted volume) (ready : drive.Ready)
    (apart : Set.InjOn lba28 (createSectors volume drive.shown)) (string : 0 ∉ path)
    (distinct : DistinctNames volume drive) (created : (fsCreate volume path drive).1 = true) :
    CreateLaw volume path drive ↔ CreatesName volume path drive := by
  have geometry := mounted.geometry
  obtain ⟨slot, cluster, found, searched, taken, ready', creation⟩ :=
    fsCreate_created geometry ready apart created
  obtain ⟨vacant, new⟩ := vacant_of_search found
  obtain ⟨before, behind, split, absent, passed, -⟩ := searchSlots_slot found
  have member : slot ∈ rootSlots volume drive.shown :=
    split ▸ List.mem_append_right _ List.mem_cons_self
  have slots_after := creation.rootSlots_eq
  obtain ⟨drive₁, opened, quiet⟩ := @fsOpen_eq volume path _ geometry ready'
  have matching : FitsEntry (relative path) → nameMatches (relative path) (fun offset =>
      (fsCreate volume path drive).2.shown slot.sector (32 * slot.index + offset)) = true :=
    fun fits => nameMatches_at.mpr ⟨fits, creation.nameAt_eq⟩
  have first_used : FitsEntry (relative path) →
      (shortName (relative path)).getD 0 0 ≠ 0 := by
    intro fits zero
    obtain ⟨char, head, first⟩ := fits.first
    rw [first, fatUpper_eq_iff (by decide)] at zero
    rw [zero] at head
    exact string ((List.dropWhile_sublist _).mem (List.mem_of_mem_head? head))
  have live_iff : FitsEntry (relative path) →
      ((shortName (relative path)).getD 0 0 ≠ 0xE5 ↔ (relative path).head? ≠ some 0xE5) := by
    intro fits
    obtain ⟨char, head, first⟩ := fits.first
    rw [first, head, Ne, Ne, fatUpper_eq_iff (by decide), Option.some_inj]
  have names : FitsEntry (relative path) → (relative path).head? ≠ some 0xE5 →
      (DistinctNames volume (fsCreate volume path drive).2 ↔
        Cell.Fresh (cellAt drive.shown) (rootSlots volume drive.shown)
          (shortName (relative path))) := by
    intro fits live
    rw [DistinctNames, creation.rootSlots_eq, Cell.distinctIn_opened_congr
      (creation.cellAt_eq (first_used fits) ((live_iff fits).mpr live)),
      Cell.distinctIn_update_iff vacant distinct (new fits)]
  constructor
  · intro law
    obtain ⟨slot', cluster', file, same, -, found_file, sector, index, -⟩ := law.opens
    rw [searched] at same
    cases same
    rw [opened] at found_file
    have hit := hit_of_openSlots found_file
    have here : (⟨clusterToSector volume file.dirCluster + file.dirSector, file.dirIndex⟩ :
        Slot) = slot := by rw [sector, index]
    rw [here] at hit
    obtain ⟨fits, -⟩ := nameMatches_at.mp hit.name
    have live : (relative path).head? ≠ some 0xE5 := by
      apply (live_iff fits).mp
      rw [← creation.first]
      exact hit.live
    exact ⟨fits, live, (names fits live).mp law.distinct⟩
  intro proper
  have used := first_used proper.fits
  have live := (live_iff proper.fits).mpr proper.live
  have here := matching proper.fits
  have passed_after : ∀ p ∈ before,
      Passed (relative path) (fsCreate volume path drive).2.shown p := by
    intro p early
    have different : p ≠ slot := by
      rintro rfl
      exact absent early
    exact (creation.passed (split ▸ List.mem_append_left _ early) different).mpr (passed p early)
  have split_after : rootSlots volume (fsCreate volume path drive).2.shown =
      before ++ slot :: behind := slots_after.trans split
  obtain ⟨buffer, written⟩ := creation.here
  constructor
  · have hit : Hit (relative path) (fsCreate volume path drive).2.shown slot := by
      constructor
      · rw [creation.first]
        exact used
      · rw [creation.first]
        exact live
      · rw [written, newEntry_attr]
        decide
      · exact here
    obtain ⟨file, found_file, at_slot⟩ := openSlots_of_split split_after passed_after hit
    refine ⟨slot, cluster, file, searched, taken, ?_, at_slot.sector, at_slot.index, ?_, ?_⟩
    · rw [opened]
      exact found_file
    · rw [at_slot.cluster, written, newEntry_cluster creation.small]
    · rw [at_slot.size, written, newEntry_size]
  · obtain ⟨drive₂, searched_again, -⟩ := @findSlot_eq volume path drive₁ geometry quiet.ready
    rw [opened, fsCreate]
    split
    · rfl
    · rw [searched_again, quiet.shown, split_after, searchSlots_failed]
      · rfl
      · exact fun p early => (passed_after p early).1
      · rw [creation.first]
        exact used
      · exact here
  · exact (names proper.fits proper.live).mpr proper.fresh

/-- On a volume of 128 GiB or less the drive tells all sectors apart. -/
theorem injOn_transferred (geometry : Geometry volume)
    (small : volume.totalSectors32 ≤ 2 ^ 28) :
    Set.InjOn lba28 {sector | Transferred volume sector} := by
  have tables := geometry.tables
  have inside := geometry.inside
  have below : ∀ sector, Transferred volume sector → sector < volume.totalSectors32 := by
    intro sector transferred
    cases transferred with
    | table valid =>
        have row := (geometry.fatSector_eq valid).2
        have : volume.fatSize32 ≤ volume.numFats * volume.fatSize32 :=
          Nat.le_mul_of_pos_left _ geometry.copies
        omega
    | mirror valid two =>
        have row := (geometry.fatSector_eq valid).2
        have := geometry.mirror two
        omega
    | data valid below =>
        obtain ⟨-, on_volume⟩ := geometry.clusterToSector_eq valid
        omega
  intro first first_member second second_member same
  have := below first first_member
  have := below second second_member
  rw [lba28, lba28, Nat.mod_eq_of_lt (by omega), Nat.mod_eq_of_lt (by omega)] at same
  exact same

theorem createSectors_subset (disk : Nat → ByteMemory) :
    createSectors volume disk ⊆ {sector | Transferred volume sector} := by
  rintro sector (of_table | ⟨slot, member, rfl⟩)
  · cases of_table with
    | table valid => exact .table valid
    | mirror valid two => exact .mirror valid two
  · obtain ⟨cluster, of_root, s, below, same⟩ := mem_slotsIn member
    exact same ▸ .data (valid_of_mem_walk of_root) below

end Law

/-- The boot sector of a volume with one table of one sector and clusters of one sector. -/
def smallBoot : ByteMemory :=
  ByteMemory.writeLE (fun _ => 0) 11 2 512
    |>.writeLE 13 1 1 |>.writeLE 14 2 1 |>.writeLE 16 1 1 |>.writeLE 32 4 20
    |>.writeLE 36 4 1 |>.writeLE 44 4 2 |>.storeBytes 82 [70, 65, 84, 51, 50]

/-- A drive with the small volume, on which only the root directory has a cluster. -/
def smallDrive : Drive where
  sectors sector :=
    if sector = 0 then smallBoot
    else if sector = 1 then ByteMemory.writeLE (fun _ => 0) 8 4 endOfChain
    else fun _ => 0
  outcome _ := .done

def smallVolume : Volume := (fsInit smallDrive).1

theorem smallVolume_mounted : Mounted smallVolume := ⟨rfl, smallDrive, rfl⟩

theorem smallDrive_ready : smallDrive.Ready := fun _ _ => rfl

theorem smallDrive_distinct : DistinctNames smallVolume smallDrive := by
  have empty : Cell.opened (cellAt smallDrive.shown)
      (rootSlots smallVolume smallDrive.shown) = [] := rfl
  rw [DistinctNames, empty]
  exact nofun

/-- `/A.TXT`. -/
def shortPath : List UInt8 := [47, 65, 46, 84, 88, 84]

/-- `/settings.conf`. -/
def longPath : List UInt8 := [47, 115, 101, 116, 116, 105, 110, 103, 115, 46, 99, 111, 110, 102]

theorem shortPath_created : CreateLaw smallVolume shortPath smallDrive := by
  have geometry := smallVolume_mounted.geometry
  apply (create_law_iff smallVolume_mounted smallDrive_ready
    ((injOn_transferred geometry (by decide)).mono (createSectors_subset _)) (by decide)
    smallDrive_distinct rfl).mpr
  constructor
  · constructor
    · decide
    · decide
    · decide
  · decide
  · have nothing : Cell.uncovered (cellAt smallDrive.shown)
        (rootSlots smallVolume smallDrive.shown) = [] := rfl
    intro p member
    rw [nothing] at member
    cases member

/-- An extension of four characters is cut, and the file is not found by its path. -/
theorem longPath_not_found :
    DistinctNames smallVolume smallDrive ∧
      (fsCreate smallVolume longPath smallDrive).1 = true ∧
      (fsOpen smallVolume longPath (fsCreate smallVolume longPath smallDrive).2).1 = none ∧
      ¬CreateLaw smallVolume longPath smallDrive := by
  have missing : (fsOpen smallVolume longPath
      (fsCreate smallVolume longPath smallDrive).2).1 = none := by decide
  refine ⟨smallDrive_distinct, by decide, missing, ?_⟩
  intro law
  obtain ⟨slot, cluster, file, -, -, found, -⟩ := law.opens
  rw [missing] at found
  cases found

end Charis.Fs
