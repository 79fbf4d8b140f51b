import Charis.Fs.Create
import Charis.Lib.SlotTable

/-!
# The root directory

The loops of `fs_open` and `fs_create` go through the clusters of the root directory, the
sectors of a cluster and the entries of a sector.  When no transfer fails they come to what a
walk over one list of sectors or of entries comes to.
-/

namespace Charis.Fs

open Charis.Lib

/-- What `next_cluster` returns when the table is read. -/
def linkOf (volume : Volume) (disk : Nat → ByteMemory) (cluster : Nat) : Nat :=
  if !volume.mounted || !clusterValid volume cluster then endOfChain
  else if volume.fatSize32 ≤ entryOffset cluster / sectorSize then endOfChain
  else
    let next :=
      (disk (fatSector volume cluster)).readLE (entryOffset cluster % sectorSize) 4 % 2 ^ 28
    if next < 2 ∨ 0x0FFFFFF0 ≤ next ∨ !clusterValid volume next then endOfChain else next

/-- The clusters from one on, as often as the walks of the driver go on. -/
def walk (volume : Volume) (disk : Nat → ByteMemory) : (remaining cluster : Nat) → List Nat
  | 0, _ => []
  | remaining + 1, cluster =>
      if clusterValid volume cluster then
        cluster :: walk volume disk remaining (linkOf volume disk cluster)
      else []

/-- The clusters of the root directory. -/
def rootClusters (volume : Volume) (disk : Nat → ByteMemory) : List Nat :=
  walk volume disk volume.totalClusters volume.rootCluster

/-- The entries of a part of a sector. -/
def slotsOf (sector index length : Nat) : List Slot :=
  (List.range' index length).map (Slot.mk sector)

/-- The entries of a part of a cluster. -/
def slotsFrom (sector s length : Nat) : List Slot :=
  (List.range' s length).flatMap fun s => slotsOf (sector + s) 0 16

/-- The entries of clusters. -/
def slotsIn (volume : Volume) (clusters : List Nat) : List Slot :=
  clusters.flatMap fun cluster =>
    slotsFrom (clusterToSector volume cluster) 0 volume.sectorsPerCluster

/-- The entries of the root directory. -/
def rootSlots (volume : Volume) (disk : Nat → ByteMemory) : List Slot :=
  slotsIn volume (rootClusters volume disk)

/-- The name in an entry. -/
def nameAt (disk : Nat → ByteMemory) (slot : Slot) : List UInt8 :=
  (disk slot.sector).loadBytes (32 * slot.index) 11

/-- An entry, by the first character of its name. -/
def cellAt (disk : Nat → ByteMemory) (slot : Slot) : Cell (List UInt8) :=
  if disk slot.sector (32 * slot.index) = 0 then .unused
  else if disk slot.sector (32 * slot.index) = 0xE5 then .deleted
  else .used (nameAt disk slot)

/-- No two live entries of the root directory have the same name. -/
def DistinctNames (volume : Volume) (drive : Drive) : Prop :=
  Cell.DistinctIn (cellAt drive.shown)
    (Cell.opened (cellAt drive.shown) (rootSlots volume drive.shown))

section Cells

variable {disk : Nat → ByteMemory} {slot : Slot}

theorem cellAt_eq_unused : cellAt disk slot = .unused ↔ disk slot.sector (32 * slot.index) = 0 := by
  rw [cellAt]
  split
  next zero => exact iff_of_true rfl zero
  next nonzero =>
    apply iff_of_false _ nonzero
    split
    · exact nofun
    · exact nofun

theorem nameAt_of_cellAt {name : List UInt8} (used : cellAt disk slot = .used name) :
    nameAt disk slot = name ∧ disk slot.sector (32 * slot.index) ≠ 0 ∧
      disk slot.sector (32 * slot.index) ≠ 0xE5 := by
  rw [cellAt] at used
  split at used
  · cases used
  split at used
  · cases used
  next nonzero live => exact ⟨Cell.used.inj used, nonzero, live⟩

theorem nameMatches_at {path : List UInt8} :
    nameMatches path (fun offset => disk slot.sector (32 * slot.index + offset)) = true ↔
      FitsEntry path ∧ nameAt disk slot = shortName path := by
  have shifted : ∀ start length,
      ByteMemory.loadBytes (fun offset => disk slot.sector (32 * slot.index + offset))
          start length =
        (disk slot.sector).loadBytes (32 * slot.index + start) length := by
    intro start length
    induction length generalizing start with
    | zero => rfl
    | succ length ih => rw [ByteMemory.loadBytes, ByteMemory.loadBytes, ih, Nat.add_assoc]
  rw [nameMatches_iff, shifted, nameAt, Nat.add_zero]

end Cells

section Reading

variable {volume : Volume} {drive : Drive} {path : List UInt8} {cluster : Nat}

/-- Another state of the drive after transfers that are done and store nothing. -/
structure Quiet (drive drive' : Drive) : Prop where
  sectors : drive'.sectors = drive.sectors
  ready : drive'.Ready

namespace Quiet

variable {drive' drive'' : Drive}

theorem refl (ready : drive.Ready) : Quiet drive drive := ⟨rfl, ready⟩

theorem trans (left : Quiet drive drive') (right : Quiet drive' drive'') :
    Quiet drive drive'' :=
  ⟨right.sectors.trans left.sectors, right.ready⟩

theorem shown (quiet : Quiet drive drive') : drive'.shown = drive.shown :=
  Drive.shown_congr quiet.sectors

end Quiet

theorem read_of_ready (ready : drive.Ready) (lba : Nat) :
    ∃ drive', ataReadSector drive lba = (some (drive.shown lba), drive') ∧
      Quiet drive drive' := by
  obtain ⟨drive', read, same, ready'⟩ := ataReadSector_of_ready ready lba
  exact ⟨drive', read, same, ready'⟩

theorem nextCluster_eq (ready : drive.Ready) (cluster : Nat) :
    ∃ drive', nextCluster volume drive cluster = (linkOf volume drive.shown cluster, drive') ∧
      Quiet drive drive' := by
  rw [nextCluster, linkOf]
  split
  · exact ⟨drive, rfl, .refl ready⟩
  split
  · exact ⟨drive, rfl, .refl ready⟩
  obtain ⟨drive', read, quiet⟩ := read_of_ready ready (fatSector volume cluster)
  refine ⟨drive', ?_, quiet⟩
  rw [read]
  dsimp only
  split
  · rfl
  · rfl

theorem Geometry.not_offVolume (geometry : Geometry volume)
    (valid : clusterValid volume cluster = true) :
    offVolume volume (clusterToSector volume cluster) = false := by
  obtain ⟨-, inside⟩ := geometry.clusterToSector_eq valid
  have total := geometry.total
  have perCluster := geometry.perCluster
  simp only [offVolume, Bool.or_eq_false_iff, decide_eq_false_iff_not, noSector]
  omega

theorem Geometry.endOfChain_invalid (geometry : Geometry volume) :
    clusterValid volume endOfChain = false := by
  have clusters := geometry.clusters
  simp only [clusterValid, endOfChain, Bool.and_eq_false_iff, decide_eq_false_iff_not]
  omega

theorem Geometry.walk_endOfChain (geometry : Geometry volume) (disk : Nat → ByteMemory)
    (remaining : Nat) : walk volume disk remaining endOfChain = [] := by
  cases remaining with
  | zero => rfl
  | succ remaining => rw [walk, geometry.endOfChain_invalid, if_neg Bool.false_ne_true]

/-- The number of a sector of a cluster does not overflow. -/
theorem Geometry.sector_eq (geometry : Geometry volume)
    (valid : clusterValid volume cluster = true) {s : Nat}
    (below : s < volume.sectorsPerCluster) :
    (clusterToSector volume cluster + s) % 2 ^ 32 = clusterToSector volume cluster + s := by
  obtain ⟨-, inside⟩ := geometry.clusterToSector_eq valid
  have total := geometry.total
  exact Nat.mod_eq_of_lt (by omega)

/-- The file that `fs_open` finds in a sector. -/
def fileIn (volume : Volume) (path : List UInt8) (disk : Nat → ByteMemory) (cluster s : Nat) :
    Option File :=
  let buffer := disk (clusterToSector volume cluster + s)
  (findEntry path buffer 16 0).map fun index =>
    { cluster := buffer.readLE (32 * index + 20) 2 * 2 ^ 16 + buffer.readLE (32 * index + 26) 2
      size := buffer.readLE (32 * index + 28) 4
      pos := 0
      dirCluster := cluster
      dirSector := s
      dirIndex := index }

theorem scanSectors_eq (geometry : Geometry volume) (ready : drive.Ready)
    (valid : clusterValid volume cluster = true) {remaining s : Nat}
    (inside : s + remaining ≤ volume.sectorsPerCluster) :
    ∃ drive', scanSectors path cluster (clusterToSector volume cluster) remaining s drive =
        (match (List.range' s remaining).findSome? (fileIn volume path drive.shown cluster) with
          | none => .missing
          | some file => .found file, drive') ∧
      Quiet drive drive' := by
  induction remaining generalizing s drive with
  | zero => exact ⟨drive, rfl, .refl ready⟩
  | succ remaining ih =>
  obtain ⟨drive', read, quiet⟩ := read_of_ready ready (clusterToSector volume cluster + s)
  rw [scanSectors, geometry.sector_eq valid (by omega), read, List.range'_succ,
    List.findSome?_cons, fileIn]
  dsimp only
  cases findEntry path (drive.shown (clusterToSector volume cluster + s)) 16 0 with
  | none =>
      obtain ⟨drive'', scanned, quiet'⟩ := ih (s := s + 1) quiet.ready (by omega)
      refine ⟨drive'', ?_, quiet.trans quiet'⟩
      rw [← quiet.shown]
      exact scanned
  | some index => exact ⟨drive', rfl, quiet⟩

/-- The loop of `fs_open` finds the first file with the name in the sectors of a walk. -/
theorem openLoop_eq (geometry : Geometry volume) (ready : drive.Ready) {remaining : Nat} :
    ∃ drive', openLoop volume path remaining cluster drive =
        ((walk volume drive.shown remaining cluster).findSome? fun cluster =>
          (List.range' 0 volume.sectorsPerCluster).findSome?
            (fileIn volume path drive.shown cluster), drive') ∧
      Quiet drive drive' := by
  induction remaining generalizing cluster drive with
  | zero => exact ⟨drive, rfl, .refl ready⟩
  | succ remaining ih =>
  rw [openLoop, walk]
  by_cases valid : clusterValid volume cluster = true
  · obtain ⟨drive', scanned, quiet⟩ := @scanSectors_eq volume drive path cluster geometry
      ready valid volume.sectorsPerCluster 0 (Nat.le_of_eq (Nat.zero_add _))
    have goes_on : ¬(!clusterValid volume cluster) = true := by simp [valid]
    have on_volume : ¬offVolume volume (clusterToSector volume cluster) = true := by
      simp [geometry.not_offVolume valid]
    rw [if_neg goes_on, if_neg on_volume, scanned, if_pos valid, List.findSome?_cons]
    cases (List.range' 0 volume.sectorsPerCluster).findSome?
      (fileIn volume path drive.shown cluster) with
    | some file => exact ⟨drive', rfl, quiet⟩
    | none =>
        obtain ⟨drive'', followed, quiet'⟩ := @nextCluster_eq volume drive' quiet.ready cluster
        have both := quiet.trans quiet'
        dsimp only
        rw [followed, quiet.shown]
        dsimp only
        split
        next last =>
          refine ⟨drive'', ?_, both⟩
          rw [last, geometry.walk_endOfChain]
          rfl
        next more =>
          obtain ⟨drive₃, opened, quiet''⟩ :=
            @ih drive'' (linkOf volume drive.shown cluster) both.ready
          refine ⟨drive₃, ?_, both.trans quiet''⟩
          rw [opened, both.shown]
  · refine ⟨drive, ?_, .refl ready⟩
    rw [if_pos (by simpa using valid), if_neg valid]
    rfl

/-- The search of `fs_create` over entries. -/
def searchSlots (path : List UInt8) (disk : Nat → ByteMemory) :
    List Slot → Option Slot → Search
  | [], free => .going free
  | slot :: rest, free =>
      if disk slot.sector (32 * slot.index) = 0 then .stopped slot
      else
        let free :=
          if disk slot.sector (32 * slot.index) = 0xE5 ∧ free = none then some slot else free
        if nameMatches path (fun offset => disk slot.sector (32 * slot.index + offset)) then
          .failed
        else searchSlots path disk rest free

theorem searchSlots_append {disk : Nat → ByteMemory} {first second : List Slot}
    {free : Option Slot} :
    searchSlots path disk (first ++ second) free =
      match searchSlots path disk first free with
      | .going free => searchSlots path disk second free
      | result => result := by
  induction first generalizing free with
  | nil => rfl
  | cons slot rest ih =>
  rw [List.cons_append, searchSlots, searchSlots]
  split
  · rfl
  dsimp only
  split
  · rfl
  · exact ih

theorem searchEntries_eq {disk : Nat → ByteMemory} {sector remaining index : Nat}
    {free : Option Slot} :
    searchEntries path sector (disk sector) remaining index free =
      searchSlots path disk (slotsOf sector index remaining) free := by
  induction remaining generalizing index free with
  | zero => rfl
  | succ remaining ih =>
  rw [searchEntries, slotsOf, List.range'_succ, List.map_cons, searchSlots]
  dsimp only
  split
  · rfl
  split
  · rfl
  · exact ih

theorem searchSectors_eq (geometry : Geometry volume) (ready : drive.Ready)
    (valid : clusterValid volume cluster = true) {remaining s : Nat} {free : Option Slot}
    (inside : s + remaining ≤ volume.sectorsPerCluster) :
    ∃ drive', searchSectors path (clusterToSector volume cluster) remaining s free drive =
        (searchSlots path drive.shown
          (slotsFrom (clusterToSector volume cluster) s remaining) free, drive') ∧
      Quiet drive drive' := by
  induction remaining generalizing s free drive with
  | zero => exact ⟨drive, rfl, .refl ready⟩
  | succ remaining ih =>
  obtain ⟨drive', read, quiet⟩ := read_of_ready ready (clusterToSector volume cluster + s)
  rw [searchSectors, geometry.sector_eq valid (by omega), read, slotsFrom, List.range'_succ,
    List.flatMap_cons, searchSlots_append, ← searchEntries_eq]
  dsimp only
  cases searchEntries path (clusterToSector volume cluster + s)
    (drive.shown (clusterToSector volume cluster + s)) 16 0 free with
  | failed => exact ⟨drive', rfl, quiet⟩
  | stopped slot => exact ⟨drive', rfl, quiet⟩
  | going free =>
      obtain ⟨drive'', searched, quiet'⟩ := @ih drive' quiet.ready (s + 1) free (by omega)
      refine ⟨drive'', ?_, quiet.trans quiet'⟩
      rw [← quiet.shown]
      exact searched

/-- The loop of `fs_create` searches the entries of a walk. -/
theorem searchRoot_eq (geometry : Geometry volume) (ready : drive.Ready) {remaining : Nat}
    {free : Option Slot} :
    ∃ drive', searchRoot volume path remaining cluster free drive =
        (searchSlots path drive.shown
          (slotsIn volume (walk volume drive.shown remaining cluster)) free, drive') ∧
      Quiet drive drive' := by
  induction remaining generalizing cluster free drive with
  | zero => exact ⟨drive, rfl, .refl ready⟩
  | succ remaining ih =>
  rw [searchRoot, walk]
  by_cases valid : clusterValid volume cluster = true
  · obtain ⟨drive', searched, quiet⟩ := @searchSectors_eq volume drive path cluster geometry
      ready valid volume.sectorsPerCluster 0 free (Nat.le_of_eq (Nat.zero_add _))
    have goes_on : ¬(!clusterValid volume cluster) = true := by simp [valid]
    have on_volume : ¬offVolume volume (clusterToSector volume cluster) = true := by
      simp [geometry.not_offVolume valid]
    rw [if_neg goes_on, if_neg on_volume, searched, if_pos valid, slotsIn,
      List.flatMap_cons, searchSlots_append]
    cases searchSlots path drive.shown
      (slotsFrom (clusterToSector volume cluster) 0 volume.sectorsPerCluster) free with
    | failed => exact ⟨drive', rfl, quiet⟩
    | stopped slot => exact ⟨drive', rfl, quiet⟩
    | going free =>
        obtain ⟨drive'', followed, quiet'⟩ := @nextCluster_eq volume drive' quiet.ready cluster
        have both := quiet.trans quiet'
        dsimp only
        rw [followed, quiet.shown]
        dsimp only
        split
        next last =>
          refine ⟨drive'', ?_, both⟩
          rw [last, geometry.walk_endOfChain]
          rfl
        next more =>
          obtain ⟨drive₃, found, quiet''⟩ :=
            @ih drive'' (linkOf volume drive.shown cluster) both.ready free
          refine ⟨drive₃, ?_, both.trans quiet''⟩
          rw [found, both.shown]
          rfl
  · refine ⟨drive, ?_, .refl ready⟩
    rw [if_pos (by simpa using valid), if_neg valid]
    rfl

theorem searchLoop_eq (geometry : Geometry volume) (ready : drive.Ready) {remaining : Nat}
    {free : Option Slot} :
    ∃ drive', searchLoop volume path remaining cluster free drive =
        ((searchSlots path drive.shown
          (slotsIn volume (walk volume drive.shown remaining cluster)) free).slot, drive') ∧
      Quiet drive drive' := by
  obtain ⟨drive', searched, quiet⟩ :=
    @searchRoot_eq volume drive path cluster geometry ready remaining free
  refine ⟨drive', ?_, quiet⟩
  rw [searchLoop_searchRoot, searched]

end Reading

end Charis.Fs
