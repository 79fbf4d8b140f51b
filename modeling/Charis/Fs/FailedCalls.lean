import Charis.Fs.Failures

/-!
# What a failed call leaves behind

A call that fails gives nothing back that it has taken.  It leaves the table and the directory
as they were exactly if it has failed before an entry of the table was stored, or, when a file
was to be created, if its cluster could be freed and its entry was not stored.
-/

namespace Charis.Fs

open Charis.Lib

/-- A write comes to the allocation of a cluster and stores its entry in the table. -/
def TakesCluster (volume : Volume) (file : File) (bytes : List UInt8) (drive : Drive) : Prop :=
  bytes ≠ [] ∧ ∃ drive' ∈ firstAllocation volume file bytes.length drive,
    AllocationStores volume drive'

section Writing

variable {volume : Volume} {drive : Drive} {file : File}
  {bytes : List UInt8}

/-- What `fs_write` does after the extension. -/
def writeExtended (volume : Volume) (bytes : List UInt8) (file : File) (drive : Drive) :
    Option Nat × File × Drive :=
  match skipWrite volume (file.pos / clusterSize volume) file.cluster drive with
  | (none, drive) => (none, file, drive)
  | (some cluster, drive) =>
      writeLoop volume bytes (bytes.length + 1) cluster (file.pos % clusterSize volume) 0 file
        drive

theorem fsWrite_eq (geometry : Geometry volume) (nonempty : bytes ≠ []) :
    fsWrite volume file bytes drive =
      match fsExtend volume file bytes.length drive with
      | (false, file, drive) => (none, file, drive)
      | (true, file, drive) => writeExtended volume bytes file drive := by
  have proceeds : ¬((!volume.mounted) = true ∨ bytes = []) := by
    simp [geometry.mounted, nonempty]
  rw [fsWrite, if_neg proceeds]
  rfl

/-- It changes sectors of the file only, if it fails. -/
theorem writeExtended_failed (geometry : Geometry volume)
    (apart : Set.InjOn lba28 {sector | Transferred volume sector})
    (failed : (writeExtended volume bytes file drive).1 = none) :
    OwnChange volume file.cluster drive.shown
      (writeExtended volume bytes file drive).2.2.shown := by
  rw [writeExtended] at failed ⊢
  have skipped := @skipWrite_effect volume drive file.cluster (file.pos / clusterSize volume)
  generalize skipWrite volume (file.pos / clusterSize volume) file.cluster drive = result
    at skipped failed ⊢
  obtain ⟨found, drive'⟩ := result
  have unchanged : OwnChange volume file.cluster drive.shown drive'.shown := by
    intro sector _ _
    rw [Drive.shown_congr skipped.1]
  cases found with
  | none => exact unchanged
  | some cluster => exact writeLoop_failed geometry apart unchanged (skipped.2 cluster rfl) failed

/-- A write that fails leaves the table and the directory alone exactly if it has taken no
cluster. -/
theorem fsWrite_failed_iff (geometry : Geometry volume)
    (apart : Set.InjOn lba28 {sector | Transferred volume sector})
    (failed : (fsWrite volume file bytes drive).1 = none) :
    MetadataSame volume (OwnSector volume drive.shown file.cluster) drive.shown
        (fsWrite volume file bytes drive).2.2.shown ↔
      ¬TakesCluster volume file bytes drive := by
  by_cases empty : bytes = []
  · have nothing : fsWrite volume file bytes drive = (none, file, drive) := by
      rw [fsWrite, if_pos (.inr empty)]
    rw [nothing]
    exact iff_of_true (.refl _) fun takes => takes.1 empty
  rw [fsWrite_eq geometry empty] at failed ⊢
  have extended := fsExtend_effect geometry (apart_of_injOn apart) file bytes.length drive
  generalize fsExtend volume file bytes.length drive = result at extended failed ⊢
  obtain ⟨ok, file', drive'⟩ := result
  cases first : firstAllocation volume file bytes.length drive with
  | none =>
      have takes_none : ¬TakesCluster volume file bytes drive := by
        rintro ⟨-, other, member, -⟩
        rw [first] at member
        cases member
      obtain ⟨same_file, same⟩ := extended.1 first
      cases same_file
      apply iff_of_true _ takes_none
      cases ok with
      | false =>
          rw [Drive.shown_congr same]
          exact .refl _
      | true =>
          have change := writeExtended_failed geometry apart failed
          rw [Drive.shown_congr same] at change
          exact change.metadataSame geometry
  | some start =>
  obtain ⟨no_store, does_store⟩ := extended.2 start first
  have takes_iff : TakesCluster volume file bytes drive ↔ AllocationStores volume start := by
    constructor
    · rintro ⟨-, other, member, stores⟩
      rw [first] at member
      cases member
      exact stores
    · intro stores
      exact ⟨empty, start, first, stores⟩
  rw [takes_iff]
  by_cases stores : AllocationStores volume start
  · apply iff_of_false _ fun absent => absent stores
    have taken := does_store stores
    cases ok with
    | false => exact taken.not_same
    | true =>
    have change := writeExtended_failed geometry apart failed
    apply Taken.not_same
    apply taken.keeps
    intro cluster valid used
    rw [change.entries geometry valid]
    exact used
  · apply iff_of_true _ stores
    obtain ⟨refused, same⟩ := no_store stores
    cases refused
    rw [Drive.shown_congr same]
    exact .refl _

end Writing

/-! ## Creating -/

section Creating

variable {volume : Volume} {drive : Drive} {path : List UInt8} {cluster : Nat}

/-- The entry that a search leads to is one of those that it goes through. -/
theorem searchSlots_mem {disk : Nat → ByteMemory} {slots : List Slot} {free : Option Slot} :
    ∀ slot ∈ (searchSlots path disk slots free).slot, free = some slot ∨ slot ∈ slots := by
  intro slot member
  cases searched : searchSlots path disk slots free with
  | failed =>
      rw [searched] at member
      cases member
  | stopped stop =>
      rw [searched] at member
      cases member
      obtain ⟨before, behind, split, -⟩ := searchSlots_stopped searched
      exact .inr (split ▸ List.mem_append_right _ List.mem_cons_self)
  | going found =>
  rw [searched] at member
  cases member
  rcases (searchSlots_going searched).2 with same | ⟨other, inside, same, -⟩
  · exact .inl same.symm
  · cases same
    exact .inr inside

theorem searchSectors_effect (geometry : Geometry volume)
    (valid : clusterValid volume cluster = true) {remaining s : Nat} {free : Option Slot}
    (inside : s + remaining ≤ volume.sectorsPerCluster) :
    (searchSectors path (clusterToSector volume cluster) remaining s free drive).2.sectors =
        drive.sectors ∧
      ∀ slot ∈ (searchSectors path (clusterToSector volume cluster) remaining s free drive).1.slot,
        free = some slot ∨ slot ∈ slotsFrom (clusterToSector volume cluster) s remaining := by
  induction remaining generalizing s free drive with
  | zero => exact ⟨rfl, fun slot member => .inl member⟩
  | succ remaining ih =>
  rw [searchSectors, geometry.sector_eq valid (by omega), slotsFrom, List.range'_succ,
    List.flatMap_cons, ← slotsFrom]
  have read := ataReadSector_sectors drive (clusterToSector volume cluster + s)
  generalize ataReadSector drive (clusterToSector volume cluster + s) = result at read ⊢
  obtain ⟨buffer, drive'⟩ := result
  cases buffer with
  | none => exact ⟨read, fun slot member => by cases member⟩
  | some buffer =>
  dsimp only
  have entries := @searchEntries_eq path (fun _ => buffer)
    (clusterToSector volume cluster + s) 16 0 free
  have found := @searchSlots_mem path (fun _ => buffer)
    (slotsOf (clusterToSector volume cluster + s) 0 16) free
  rw [← entries] at found
  cases searched : searchEntries path (clusterToSector volume cluster + s) buffer 16 0
    free with
  | failed => exact ⟨read, fun slot member => by cases member⟩
  | stopped slot =>
      rw [searched] at found
      refine ⟨read, ?_⟩
      rintro _ ⟨⟩
      rcases found slot rfl with same | member
      · exact .inl same
      · exact .inr (List.mem_append_left _ member)
  | going free' =>
  rw [searched] at found
  obtain ⟨same, later⟩ := @ih drive' (s + 1) free' (by omega)
  refine ⟨same.trans read, ?_⟩
  intro slot member
  rcases later slot member with same | member
  · rcases found slot same with same | member
    · exact .inl same
    · exact .inr (List.mem_append_left _ member)
  · exact .inr (List.mem_append_right _ member)

theorem nextCluster_link (followed : (nextCluster volume drive cluster).1 ≠ endOfChain) :
    (nextCluster volume drive cluster).1 = linkOf volume drive.shown cluster := by
  rw [nextCluster] at followed ⊢
  rw [linkOf]
  split at followed
  · exact absurd rfl followed
  next mounted =>
  split at followed
  · exact absurd rfl followed
  next inside =>
  rw [if_neg mounted, if_neg inside, if_neg mounted, if_neg inside]
  rw [ataReadSector] at followed ⊢
  cases outcome : drive.outcome drive.transfers with
  | done =>
      rw [outcome] at followed
      dsimp only at followed ⊢
      split at followed
      · exact absurd rfl followed
      next link =>
        rw [if_neg link]
        exact (if_neg link).symm
  | failed =>
      rw [outcome] at followed
      exact absurd rfl followed
  | late =>
      rw [outcome] at followed
      exact absurd rfl followed

theorem searchLoop_effect (geometry : Geometry volume) {remaining : Nat} {free : Option Slot} :
    (searchLoop volume path remaining cluster free drive).2.sectors = drive.sectors ∧
      ∀ slot ∈ (searchLoop volume path remaining cluster free drive).1,
        free = some slot ∨ slot ∈ slotsIn volume (walk volume drive.shown remaining cluster) := by
  induction remaining generalizing cluster free drive with
  | zero => exact ⟨rfl, fun slot member => .inl member⟩
  | succ remaining ih =>
  rw [searchLoop, walk]
  split
  next => exact ⟨rfl, fun slot member => .inl member⟩
  next proper =>
  have valid : clusterValid volume cluster = true := by simpa using proper
  rw [if_pos valid, slotsIn, List.flatMap_cons, ← slotsIn]
  split
  · exact ⟨rfl, fun slot member => by cases member⟩
  have scanned := @searchSectors_effect volume drive path cluster geometry valid
    volume.sectorsPerCluster 0 free (Nat.le_of_eq (Nat.zero_add _))
  generalize searchSectors path (clusterToSector volume cluster) volume.sectorsPerCluster 0
    free drive = result at scanned ⊢
  obtain ⟨result, drive'⟩ := result
  have here : ∀ slot ∈ result.slot, free = some slot ∨
      slot ∈ slotsFrom (clusterToSector volume cluster) 0 volume.sectorsPerCluster ++
        slotsIn volume (walk volume drive.shown remaining
          (linkOf volume drive.shown cluster)) := by
    intro slot member
    rcases scanned.2 slot member with same | inside
    · exact .inl same
    · exact .inr (List.mem_append_left _ inside)
  cases result with
  | failed => exact ⟨scanned.1, fun slot member => by cases member⟩
  | stopped slot => exact ⟨scanned.1, here⟩
  | going free' =>
  dsimp only
  have read := @nextCluster_sectors volume drive' cluster
  have link := @nextCluster_link volume drive' cluster
  generalize nextCluster volume drive' cluster = result at read link ⊢
  obtain ⟨next, drive''⟩ := result
  have both := read.trans scanned.1
  dsimp only at link ⊢
  split
  · exact ⟨both, here⟩
  next followed =>
    obtain ⟨same, later⟩ := @ih drive'' next free'
    refine ⟨same.trans both, ?_⟩
    intro slot member
    rcases later slot member with same | inside
    · exact here slot same
    · right
      rw [Drive.shown_congr both, link followed, Drive.shown_congr scanned.1] at inside
      exact List.mem_append_right _ inside

/-- A search stores nothing, and it leads to an entry of the root directory. -/
theorem findSlot_effect (geometry : Geometry volume) :
    (findSlot volume path drive).2.sectors = drive.sectors ∧
      ∀ slot ∈ (findSlot volume path drive).1, slot ∈ rootSlots volume drive.shown := by
  obtain ⟨same, found⟩ := @searchLoop_effect volume drive (relative path) volume.rootCluster
    geometry volume.totalClusters none
  refine ⟨same, ?_⟩
  intro slot member
  rcases found slot member with none | inside
  · cases none
  · exact inside

/-- After an allocation of `fs_create`: the entry is not stored, or it is the one that was
there, and the cluster is marked as free again. -/
def ClusterReturned (path : List UInt8) (slot : Slot) : Option Nat × Drive → Prop
  | (none, _) => False
  | (some cluster, drive) =>
      drive.outcome drive.transfers = .done ∧
      (drive.outcome (drive.transfers + 1) = .failed ∨
        drive.outcome (drive.transfers + 1) = .late ∧
          newEntry path cluster (drive.shown slot.sector) slot.index =
            drive.shown slot.sector) ∧
      drive.outcome (drive.transfers + 2) = .done ∧
      drive.outcome (drive.transfers + 3) ≠ .failed

/-- A creation fails before it stores an entry of the table, or it undoes the allocation. -/
def CreateUndone (volume : Volume) (path : List UInt8) (drive : Drive) : Prop :=
  path = [] ∨
    match findSlot volume path drive with
    | (none, _) => True
    | (some slot, drive) =>
        ¬AllocationStores volume drive ∨
          ClusterReturned (relative path) slot (fatAllocCluster volume drive)

/-- The sectors of the tables decide what entries they have. -/
theorem entryIn_congr {before after : Nat → ByteMemory}
    (same : ∀ sector, TableSector volume sector → after sector = before sector)
    (valid : clusterValid volume cluster = true) :
    entryIn volume after cluster = entryIn volume before cluster := by
  rw [entryIn, entryIn, same _ (.table valid)]

/-- After a cluster was taken and the directory was not or late written: the cluster can be
given back, and then what the directory has decides. -/
theorem returned_iff (geometry : Geometry volume)
    (apart : Set.InjOn lba28 {sector | Transferred volume sector}) {slot : Slot}
    {base taken : Nat → ByteMemory} (member : slot ∈ rootSlots volume base)
    (valid : clusterValid volume cluster = true) (free : entryIn volume base cluster = 0)
    (change : TableChange volume {sector | Transferred volume sector} cluster endOfChain base taken)
    {late : Prop} {buffer : ByteMemory}
    (written : ∀ other, (late ∧ lba28 other = lba28 slot.sector → drive.shown other = buffer) ∧
      (¬(late ∧ lba28 other = lba28 slot.sector) → drive.shown other = taken other))
    (outside : ∀ address, address < 32 * slot.index ∨ 32 * slot.index + 32 ≤ address →
      buffer address = taken slot.sector address) :
    MetadataSame volume (fun _ => False) base (fatSet volume drive cluster 0).2.shown ↔
      drive.Stores ∧ (late → buffer = taken slot.sector) := by
  obtain ⟨root, of_root, s, below, sector⟩ := mem_slotsIn member
  have root_valid := valid_of_mem_walk of_root
  have slot_inside : Transferred volume slot.sector := sector ▸ .data root_valid below
  have sectors := apart_of_injOn apart
  have tables_kept : ∀ other, TableSector volume other → drive.shown other = taken other := by
    intro other of_table
    apply (written other).2
    rintro ⟨-, aliased⟩
    have same := apart (sectors.tables other of_table) slot_inside aliased
    exact geometry.not_tableSector root_valid s (sector ▸ same ▸ of_table)
  have effect := @fatSet_effect volume {sector | Transferred volume sector} drive cluster 0
    geometry sectors valid (.inl rfl) (by decide)
  by_cases stores : drive.Stores
  · have freed := effect.1 stores
    have entries : ∀ other, clusterValid volume other = true →
        entryIn volume (fatSet volume drive cluster 0).2.shown other =
          entryIn volume base other := by
      intro other valid'
      rw [freed.entries other valid', entryIn_congr tables_kept valid',
        change.entries other valid']
      by_cases same : other = cluster
      · rw [if_pos same, same, free]
      · rw [if_neg same, if_neg same]
    have slots_kept : ∀ other ∈ rootSlots volume base,
        (fatSet volume drive cluster 0).2.shown other.sector = drive.shown other.sector ∧
          taken other.sector = base other.sector := by
      intro other inside
      obtain ⟨root', of_root', s', below', sector'⟩ := mem_slotsIn inside
      have root_valid' := valid_of_mem_walk of_root'
      have no_table : ¬TableSector volume other.sector :=
        sector' ▸ geometry.not_tableSector root_valid' s'
      have transferred : Transferred volume other.sector := sector' ▸ .data root_valid' below'
      exact ⟨freed.elsewhere _ transferred no_table, change.elsewhere _ transferred no_table⟩
    constructor
    · intro same
      refine ⟨stores, ?_⟩
      intro is_late
      funext address
      by_cases inside : address < 32 * slot.index ∨ 32 * slot.index + 32 ≤ address
      · exact outside address inside
      · obtain ⟨offset, rfl⟩ := Nat.exists_eq_add_of_le (Nat.le_of_not_lt
          fun low => inside (.inl low))
        have byte := same.directory slot member nofun offset (by omega)
        rw [(slots_kept slot member).1, (written _).1 ⟨is_late, rfl⟩,
          ← (slots_kept slot member).2] at byte
        exact byte
    · rintro ⟨-, unchanged⟩
      refine ⟨entries, ?_⟩
      intro other inside _ offset _
      rw [(slots_kept other inside).1, ← (slots_kept other inside).2]
      by_cases hit : late ∧ lba28 other.sector = lba28 slot.sector
      · obtain ⟨root', of_root', s', below', sector'⟩ := mem_slotsIn inside
        have same : other.sector = slot.sector :=
          apart (sector' ▸ .data (valid_of_mem_walk of_root') below') slot_inside hit.2
        rw [(written _).1 hit, unchanged hit.1, same]
      · rw [(written _).2 hit]
  · apply iff_of_false _ fun both => stores both.1
    apply Taken.not_same
    refine ⟨cluster, valid, free, ?_⟩
    rw [Drive.shown_congr (effect.2 stores).2, entryIn_congr tables_kept valid,
      change.entries cluster valid, if_pos rfl]
    decide

/-- A creation that fails leaves the table and the directory alone exactly if it is undone. -/
theorem fsCreate_failed_iff (geometry : Geometry volume)
    (apart : Set.InjOn lba28 {sector | Transferred volume sector})
    (failed : (fsCreate volume path drive).1 = false) :
    MetadataSame volume (fun _ => False) drive.shown (fsCreate volume path drive).2.shown ↔
      CreateUndone volume path drive := by
  by_cases empty : path = []
  · have nothing : fsCreate volume path drive = (false, drive) := by
      rw [fsCreate, if_pos (.inr empty)]
    rw [nothing]
    exact iff_of_true (.refl _) (.inl empty)
  have proceeds : ¬((!volume.mounted) = true ∨ path = []) := by
    simp [geometry.mounted, empty]
  rw [fsCreate, if_neg proceeds] at failed ⊢
  rw [CreateUndone, or_iff_right empty]
  have searched := @findSlot_effect volume drive path geometry
  generalize findSlot volume path drive = result at searched failed ⊢
  obtain ⟨found, drive₁⟩ := result
  obtain ⟨same, inside⟩ := searched
  rw [← Drive.shown_congr same] at inside ⊢
  cases found with
  | none => exact iff_of_true (.refl _) trivial
  | some slot =>
  have member := inside slot rfl
  dsimp only at failed ⊢
  obtain ⟨no_store, does_store⟩ := fatAllocCluster_stores geometry (apart_of_injOn apart) drive₁
  generalize fatAllocCluster volume drive₁ = result at no_store does_store failed ⊢
  obtain ⟨allocated, drive₂⟩ := result
  by_cases stores : AllocationStores volume drive₁
  swap
  · obtain ⟨none, same⟩ := no_store stores
    cases none
    dsimp only at same ⊢
    rw [Drive.shown_congr same]
    exact iff_of_true (.refl _) (.inl stores)
  rw [or_iff_right fun absent => absent stores]
  obtain ⟨free, valid, is_free, change, returned⟩ := does_store stores
  have taken := change.taken valid (by decide) is_free
  cases allocated with
  | none => exact iff_of_false taken.not_same id
  | some cluster =>
  cases returned cluster rfl
  rw [ClusterReturned]
  dsimp only at failed taken change ⊢
  rw [ataReadSector] at failed ⊢
  cases reading : drive₂.outcome drive₂.transfers with
  | failed => exact iff_of_false taken.not_same fun both => Transfer.noConfusion both.1
  | late => exact iff_of_false taken.not_same fun both => Transfer.noConfusion both.1
  | done =>
  rw [reading] at failed
  dsimp only at failed ⊢
  rw [ataWriteSector] at failed ⊢
  dsimp only at failed ⊢
  have outside : ∀ address, address < 32 * slot.index ∨ 32 * slot.index + 32 ≤ address →
      newEntry (relative path) free (drive₂.shown slot.sector) slot.index address =
        drive₂.shown slot.sector address := fun address => newEntry_of_outside
  cases writing : drive₂.outcome (drive₂.transfers + 1) with
  | done =>
      rw [writing] at failed
      cases failed
  | failed =>
      have undone := @returned_iff volume drive₂.tick.tick free geometry apart slot drive₁.shown
        drive₂.shown member valid is_free change False (drive₂.shown slot.sector)
        (fun other => ⟨fun impossible => impossible.1.elim, fun _ => rfl⟩) fun _ _ => rfl
      apply undone.trans
      constructor
      · intro both
        exact ⟨rfl, .inl rfl, both.1⟩
      · intro all
        exact ⟨all.2.2, fun impossible => impossible.elim⟩
  | late =>
  have stored : ∀ other, (True ∧ lba28 other = lba28 slot.sector →
      ({ drive₂.tick.tick with
        sectors := Function.update drive₂.sectors (lba28 slot.sector)
          (newEntry (relative path) free (drive₂.shown slot.sector) slot.index) } :
        Drive).shown other =
          newEntry (relative path) free (drive₂.shown slot.sector) slot.index) ∧
      (¬(True ∧ lba28 other = lba28 slot.sector) →
        ({ drive₂.tick.tick with
          sectors := Function.update drive₂.sectors (lba28 slot.sector)
            (newEntry (relative path) free (drive₂.shown slot.sector) slot.index) } :
          Drive).shown other = drive₂.shown other) := by
    intro other
    constructor
    · intro hit
      rw [Drive.shown, hit.2]
      exact Function.update_self ..
    · intro miss
      exact Function.update_of_ne (fun same => miss ⟨trivial, same⟩) ..
  have undone := @returned_iff volume _ free geometry apart slot drive₁.shown
    drive₂.shown member valid is_free change True _ stored outside
  apply undone.trans
  constructor
  · intro both
    exact ⟨rfl, .inr ⟨rfl, both.2 trivial⟩, both.1⟩
  · rintro ⟨-, unchanged, stores⟩
    rcases unchanged with impossible | unchanged
    · cases impossible
    · exact ⟨stores, fun _ => unchanged.2⟩

end Creating

/-- Calls that fail leave the table and the directory alone exactly if a write takes no cluster
and a creation is undone. -/
theorem failed_calls_iff {volume : Volume} (mounted : Mounted volume)
    (apart : Set.InjOn lba28 {sector | Transferred volume sector}) :
    (∀ file bytes drive, (fsWrite volume file bytes drive).1 = none →
      (MetadataSame volume (OwnSector volume drive.shown file.cluster) drive.shown
          (fsWrite volume file bytes drive).2.2.shown ↔
        ¬TakesCluster volume file bytes drive)) ∧
    ∀ path drive, (fsCreate volume path drive).1 = false →
      (MetadataSame volume (fun _ => False) drive.shown (fsCreate volume path drive).2.shown ↔
        CreateUndone volume path drive) := by
  constructor
  · intro file bytes drive failed
    exact fsWrite_failed_iff mounted.geometry apart failed
  · intro path drive failed
    exact fsCreate_failed_iff mounted.geometry apart failed

/-- The small volume, on a drive with one transfer that fails. -/
def failingDrive (transfer : Nat) : Drive :=
  { smallDrive with outcome := fun other => if other = transfer then .failed else .done }

/-- The entry of the new file cannot be written, and its cluster is given back. -/
theorem failed_creation_undone :
    MetadataSame smallVolume (fun _ => False) (failingDrive 6).shown
      (fsCreate smallVolume shortPath (failingDrive 6)).2.shown := by
  have geometry := smallVolume_mounted.geometry
  apply ((failed_calls_iff smallVolume_mounted
    (injOn_transferred geometry (by decide))).2 shortPath (failingDrive 6) (by decide)).mpr
  right
  right
  exact ⟨by decide, .inl (by decide), by decide, by decide⟩

/-- A file without a cluster. -/
def emptyFile : File := ⟨0, 0, 0, 2, 0, 0⟩

/-- The first byte of a file cannot be written, and its new cluster stays taken. -/
theorem failed_write_leaks :
    (fsWrite smallVolume emptyFile [65] (failingDrive 4)).1 = none ∧
      ¬MetadataSame smallVolume (OwnSector smallVolume (failingDrive 4).shown 0)
        (failingDrive 4).shown
        (fsWrite smallVolume emptyFile [65] (failingDrive 4)).2.2.shown := by
  constructor
  · decide
  · intro same
    have entry := same.entries 3 (by decide)
    revert entry
    decide

end Charis.Fs
