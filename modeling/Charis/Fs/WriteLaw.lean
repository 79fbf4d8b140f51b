import Charis.Fs.Failures
import Charis.Fs.Writes

/-!
# The contents of a file after a write

A write replaces the bytes behind the position of a file and keeps the others, apart from those
in the last sector that it enters at its start.
-/

namespace Charis.Fs

open Charis.Lib

/-- The directory entry of an open file is in a cluster that is in use, and not by the file. -/
structure OpenFile (volume : Volume) (disk : Nat → ByteMemory) (file : File)
    (clusters : List Nat) : Prop where
  chain : FileChain volume disk file clusters
  valid : clusterValid volume file.dirCluster = true
  below : file.dirSector < volume.sectorsPerCluster
  used : entryIn volume disk file.dirCluster ≠ 0
  apart : file.dirCluster ∉ clusters

/-- The sector with the directory entry of a file. -/
def dirSectorOf (volume : Volume) (file : File) : Nat :=
  clusterToSector volume file.dirCluster + file.dirSector

/-- The steps of a write: the file is extended, its bytes are written, and then the size in its
directory entry. -/
structure Steps (volume : Volume) (file extended : File) (clusters clusters' : List Nat)
    (bytes : List UInt8) (before linked written after : Nat → ByteMemory) : Prop where
  extension : Extended volume {sector | Transferred volume sector} file extended clusters
    clusters' before linked
  reaches : file.pos + bytes.length ≤ clusters'.length * clusterSize volume
  small : file.pos + bytes.length < 2 ^ 32
  data : WriteEffect volume clusters' file.pos bytes linked written
  entry : ∀ sector, after sector =
    if lba28 sector = lba28 (dirSectorOf volume file) then
      (written (dirSectorOf volume file)).writeLE (32 * file.dirIndex + 28) 4
        (extended.advance bytes.length).size
    else written sector

section Whole

variable {volume : Volume} {drive : Drive} {file : File} {clusters : List Nat}
  {bytes : List UInt8}

theorem fsUpdateDirEntry_shown (geometry : Geometry volume) (ready : drive.Ready)
    (valid : clusterValid volume file.dirCluster = true)
    (below : file.dirSector < volume.sectorsPerCluster) :
    (fsUpdateDirEntry volume file drive).2.Ready ∧
      ∀ sector, (fsUpdateDirEntry volume file drive).2.shown sector =
        if lba28 sector = lba28 (dirSectorOf volume file) then
          (drive.shown (dirSectorOf volume file)).writeLE (32 * file.dirIndex + 28) 4 file.size
        else drive.shown sector := by
  have nonzero : file.dirCluster ≠ 0 := by
    have bounds := bounds_of_clusterValid valid
    omega
  rw [fsUpdateDirEntry, if_neg nonzero, geometry.sector_eq valid below, ← dirSectorOf]
  constructor
  · exact (Later.patch drive _ _ _ _).ready ready
  · intro sector
    exact (patchSector_shown drive _ _ _ _ sector).1 ready.stores

/-- A write for which the file could be extended takes its steps and returns the number of its
bytes. -/
theorem fsWrite_of_extend (geometry : Geometry volume)
    (injective : Set.InjOn lba28 {sector | Transferred volume sector}) (ready : drive.Ready)
    (opened : OpenFile volume drive.shown file clusters) (some : bytes ≠ []) {file₁ : File}
    {drive₁ : Drive} (extension : fsExtend volume file bytes.length drive = (true, file₁, drive₁)) :
    (fsWrite volume file bytes drive).1 = Option.some bytes.length ∧
      (fsWrite volume file bytes drive).2.2.Ready ∧
      ∃ extended clusters' linked written,
        (fsWrite volume file bytes drive).2.1 = extended.advance bytes.length ∧
        Steps volume file extended clusters clusters' bytes drive.shown linked written
          (fsWrite volume file bytes drive).2.2.shown := by
  have length := List.length_pos_of_ne_nil some
  rw [fsWrite, if_neg (by simp [geometry.mounted, some]), extension]
  dsimp only
  obtain ⟨ready₁, clusters', extended, enough⟩ :=
    fsExtend_extended geometry (apart_of_injOn injective) ready opened.chain length extension
  obtain ⟨small, reaches⟩ := enough rfl
  have position : file₁.pos = file.pos := by rw [extended.same]
  have directory : dirSectorOf volume (file₁.advance bytes.length) = dirSectorOf volume file ∧
      (file₁.advance bytes.length).dirIndex = file.dirIndex := by
    rw [extended.same]
    exact ⟨rfl, rfl⟩
  have chain := extended.chain
  have size : 0 < clusterSize volume := Nat.mul_pos geometry.perCluster (by decide)
  have row : file.pos / clusterSize volume < clusters'.length := by
    apply Nat.div_lt_of_lt_mul
    rw [Nat.mul_comm]
    omega
  have begun := Nat.zero_lt_of_lt row
  have first : clusters'[0] = file₁.cluster := by
    have begins := chain.head
    rw [List.head?_eq_getElem?, List.getElem?_eq_getElem begun] at begins
    rw [startOf] at begins
    split at begins
    · exact Option.some.inj begins
    · cases begins
  obtain ⟨drive₂, skipped, quiet⟩ := skipWrite_eq geometry chain.linked chain.valid ready₁
    (show 0 + file.pos / clusterSize volume < clusters'.length by omega)
  rw [first] at skipped
  obtain ⟨drive₃, ready₃, data, written⟩ := @writeLoop_written volume clusters' drive₂ file₁ bytes
    (clusters'[0 + file.pos / clusterSize volume]) (0 + file.pos / clusterSize volume)
    (file.pos % clusterSize volume) 0 (bytes.length + 1) geometry injective chain.nodup chain.valid
    quiet.ready (quiet.shown ▸ chain.linked) (List.getElem?_eq_getElem _) (Nat.mod_lt _ size)
    (by rw [position, Nat.zero_add, Nat.div_add_mod']) length
    (by rw [position]; exact reaches) (by rw [position]; exact small) (Nat.lt_succ_self _)
  rw [List.drop_zero, position, quiet.shown] at data
  rw [position, skipped]
  dsimp only
  rw [written]
  have update := @fsUpdateDirEntry_shown volume drive₃ (file₁.advance bytes.length) geometry ready₃
    (by rw [extended.same]; exact opened.valid) (by rw [extended.same]; exact opened.below)
  rw [directory.1, directory.2] at update
  exact ⟨rfl, update.1, file₁, clusters', drive₁.shown, drive₃.shown, rfl, extended, reaches,
    small, data, update.2⟩

theorem fsWrite_steps (geometry : Geometry volume)
    (injective : Set.InjOn lba28 {sector | Transferred volume sector}) (ready : drive.Ready)
    (opened : OpenFile volume drive.shown file clusters)
    (wrote : (fsWrite volume file bytes drive).1 = some bytes.length) :
    bytes ≠ [] ∧ (fsWrite volume file bytes drive).2.2.Ready ∧
      ∃ extended clusters' linked written,
        (fsWrite volume file bytes drive).2.1 = extended.advance bytes.length ∧
        Steps volume file extended clusters clusters' bytes drive.shown linked written
          (fsWrite volume file bytes drive).2.2.shown := by
  by_cases empty : bytes = []
  · rw [fsWrite, if_pos (.inr empty)] at wrote
    cases wrote
  cases extension : fsExtend volume file bytes.length drive with
  | mk ok result =>
  obtain ⟨file₁, drive₁⟩ := result
  cases ok with
  | false =>
      rw [fsWrite, if_neg (by simp [geometry.mounted, empty]), extension] at wrote
      cases wrote
  | true => exact ⟨empty, (fsWrite_of_extend geometry injective ready opened empty extension).2⟩

end Whole

namespace Steps

variable {volume : Volume} {file extended : File} {clusters clusters' : List Nat}
  {bytes : List UInt8} {before linked written after : Nat → ByteMemory} {sector : Nat}

theorem transferred (opened : OpenFile volume before file clusters) :
    Transferred volume (dirSectorOf volume file) :=
  .data opened.valid opened.below

/-- The file does not get the cluster with its directory entry. -/
theorem apart (opened : OpenFile volume before file clusters)
    (steps : Steps volume file extended clusters clusters' bytes before linked written after) :
    file.dirCluster ∉ clusters' := by
  intro member
  rcases steps.extension.members _ member with old | free
  · exact opened.apart old
  · exact opened.used free

/-- A sector of clusters without the directory entry is not that of the directory entry. -/
theorem ne_dirSector (geometry : Geometry volume) (opened : OpenFile volume before file clusters)
    {others : List Nat} (valid : ∀ cluster ∈ others, clusterValid volume cluster = true)
    (apart : file.dirCluster ∉ others) (member : sector ∈ fileSectors volume others) :
    sector ≠ dirSectorOf volume file := by
  rintro rfl
  obtain ⟨cluster, inside, s, below, same⟩ := mem_fileSectors.mp member
  apply apart
  rwa [← cluster_unique geometry (valid cluster inside) opened.valid below opened.below same]

theorem after_of_ne (injective : Set.InjOn lba28 {sector | Transferred volume sector})
    (opened : OpenFile volume before file clusters)
    (steps : Steps volume file extended clusters clusters' bytes before linked written after)
    (inside : Transferred volume sector) (other : sector ≠ dirSectorOf volume file) :
    after sector = written sector := by
  rw [steps.entry, if_neg]
  intro aliased
  exact other (injective inside (transferred opened) aliased)

/-- The table after a write is that after the extension. -/
theorem entries (geometry : Geometry volume)
    (injective : Set.InjOn lba28 {sector | Transferred volume sector})
    (opened : OpenFile volume before file clusters)
    (steps : Steps volume file extended clusters clusters' bytes before linked written after)
    {cluster : Nat} (valid : clusterValid volume cluster = true) :
    entryIn volume after cluster = entryIn volume linked cluster := by
  rw [← steps.data.entries geometry steps.extension.chain.valid valid, entryIn, entryIn,
    steps.after_of_ne injective opened (.table valid)]
  intro same
  have of_table : TableSector volume (fatSector volume cluster) := .table valid
  rw [same] at of_table
  exact geometry.not_tableSector opened.valid file.dirSector of_table

theorem chain (geometry : Geometry volume)
    (injective : Set.InjOn lba28 {sector | Transferred volume sector})
    (opened : OpenFile volume before file clusters)
    (steps : Steps volume file extended clusters clusters' bytes before linked written after) :
    FileChain volume after (extended.advance bytes.length) clusters' := by
  have kept := steps.extension.chain.congr fun cluster member =>
    steps.entries geometry injective opened (steps.extension.chain.valid cluster member)
  refine ⟨kept.chain, kept.used, max_le kept.covers ?_⟩
  have position : extended.pos = file.pos := by rw [steps.extension.same]
  rw [position]
  exact steps.reaches

/-- The sectors of the file are those that the write has left. -/
theorem sectors (geometry : Geometry volume)
    (injective : Set.InjOn lba28 {sector | Transferred volume sector})
    (opened : OpenFile volume before file clusters)
    (steps : Steps volume file extended clusters clusters' bytes before linked written after) :
    ∀ sector ∈ fileSectors volume clusters', after sector = written sector := by
  intro sector member
  have valid := steps.extension.chain.valid
  exact steps.after_of_ne injective opened (transferred_of_mem valid member)
    (ne_dirSector geometry opened valid (steps.apart opened) member)

/-- The extension keeps the contents of the file. -/
theorem contents_linked (geometry : Geometry volume)
    (opened : OpenFile volume before file clusters)
    (steps : Steps volume file extended clusters clusters' bytes before linked written after) :
    contents volume linked clusters' file.size = contents volume before clusters file.size :=
  steps.extension.contents_eq geometry opened.chain

/-- The bytes are replaced in the contents exactly if the old bytes that are filled up were
zeros. -/
theorem contents_eq_iff (geometry : Geometry volume)
    (injective : Set.InjOn lba28 {sector | Transferred volume sector})
    (opened : OpenFile volume before file clusters) (inside : file.pos ≤ file.size)
    (steps : Steps volume file extended clusters clusters' bytes before linked written after) :
    contents volume after clusters' (extended.advance bytes.length).size =
        (contents volume before clusters file.size).take file.pos ++ bytes ++
          (contents volume before clusters file.size).drop (file.pos + bytes.length) ↔
      ∀ position < file.size,
        FilledUp sectorSize file.pos (file.pos + bytes.length) position →
          byteAt volume before clusters position = 0 := by
  have chain := steps.chain geometry injective opened
  have size : (extended.advance bytes.length).size =
      max file.size (file.pos + bytes.length) := by
    rw [File.advance, steps.extension.same]
  have covers : file.size ≤ clusters'.length * clusterSize volume := by
    have covers := chain.covers
    rw [size] at covers
    exact (Nat.le_max_left _ _).trans covers
  have old := steps.contents_linked geometry opened
  have same : ∀ position < file.size,
      byteAt volume linked clusters' position = byteAt volume before clusters position := by
    rw [contents_eq_map covers, contents_eq_map opened.chain.covers] at old
    intro position below
    exact List.map_inj_left.mp old position (List.mem_range.mpr below)
  rw [contents_eq_map chain.covers, size,
    byteAt_congr (steps.sectors geometry injective opened), ← old, contents_eq_map covers,
    steps.data.bytes.map_range_iff inside]
  constructor
  · intro zeros position below filled
    rw [← same position below]
    exact zeros position below filled
  · intro zeros position below filled
    rw [same position below]
    exact zeros position below filled

/-- The sectors of a cluster that another file or the root directory uses are left alone until
the directory entry is written. -/
theorem written_of_used (geometry : Geometry volume)
    (steps : Steps volume file extended clusters clusters' bytes before linked written after)
    {cluster s : Nat} (valid : clusterValid volume cluster = true)
    (used : entryIn volume before cluster ≠ 0) (foreign : cluster ∉ clusters)
    (below : s < volume.sectorsPerCluster) :
    written (clusterToSector volume cluster + s) = before (clusterToSector volume cluster + s) := by
  have outside : clusterToSector volume cluster + s ∉ fileSectors volume clusters' := by
    intro member
    obtain ⟨cluster', of_file, s', below', same⟩ := mem_fileSectors.mp member
    have equal := cluster_unique geometry (steps.extension.chain.valid cluster' of_file) valid
      below' below same
    rw [equal] at of_file
    rcases steps.extension.members cluster of_file with old | free
    · exact foreign old
    · exact used free
  rw [steps.data.elsewhere _ (.data valid below) outside]
  exact steps.extension.elsewhere _ (.data valid below) (geometry.not_tableSector valid s)

/-- Another file keeps its chain and its sectors. -/
theorem other (geometry : Geometry volume)
    (injective : Set.InjOn lba28 {sector | Transferred volume sector})
    (opened : OpenFile volume before file clusters)
    (steps : Steps volume file extended clusters clusters' bytes before linked written after)
    {other : File} {others : List Nat} (chain : FileChain volume before other others)
    (disjoint : others.Disjoint clusters) (apart : file.dirCluster ∉ others) :
    FileChain volume after other others ∧
      ∀ sector ∈ fileSectors volume others, after sector = before sector := by
  constructor
  · apply chain.congr
    intro cluster member
    have valid := chain.valid cluster member
    rw [steps.entries geometry injective opened valid]
    exact steps.extension.entries cluster valid (chain.used cluster member)
      fun again => disjoint member again
  · intro sector member
    rw [steps.after_of_ne injective opened (transferred_of_mem chain.valid member)
      (ne_dirSector geometry opened chain.valid apart member)]
    obtain ⟨cluster, inside, s, below, rfl⟩ := mem_fileSectors.mp member
    exact steps.written_of_used geometry (chain.valid cluster inside) (chain.used cluster inside)
      (fun again => disjoint inside again) below

end Steps

/-- What is expected of a write: exactly its bytes are replaced in the contents of the file, and
other files keep their chains and sectors. -/
structure WriteLaw (volume : Volume) (file : File) (clusters : List Nat) (bytes : List UInt8)
    (drive : Drive) : Prop where
  replaced : ∃ clusters',
    FileChain volume (fsWrite volume file bytes drive).2.2.shown
      (fsWrite volume file bytes drive).2.1 clusters' ∧
    contents volume (fsWrite volume file bytes drive).2.2.shown clusters'
        (fsWrite volume file bytes drive).2.1.size =
      (contents volume drive.shown clusters file.size).take file.pos ++ bytes ++
        (contents volume drive.shown clusters file.size).drop (file.pos + bytes.length)
  others : ∀ other others, FileChain volume drive.shown other others →
    others.Disjoint clusters → file.dirCluster ∉ others →
      FileChain volume (fsWrite volume file bytes drive).2.2.shown other others ∧
        ∀ sector ∈ fileSectors volume others,
          (fsWrite volume file bytes drive).2.2.shown sector = drive.shown sector

/-- Old bytes of the file behind the write are zeros where they are filled up: in the last
sector, if the write enters it at its start. -/
def RestZero (volume : Volume) (file : File) (clusters : List Nat) (bytes : List UInt8)
    (drive : Drive) : Prop :=
  ∀ position < file.size, FilledUp sectorSize file.pos (file.pos + bytes.length) position →
    byteAt volume drive.shown clusters position = 0

section Law

variable {volume : Volume} {file : File} {clusters : List Nat} {bytes : List UInt8}
  {drive : Drive}

theorem writeLaw_iff (geometry : Geometry volume)
    (injective : Set.InjOn lba28 {sector | Transferred volume sector}) (ready : drive.Ready)
    (opened : OpenFile volume drive.shown file clusters) (inside : file.pos ≤ file.size)
    (wrote : (fsWrite volume file bytes drive).1 = some bytes.length) :
    WriteLaw volume file clusters bytes drive ↔ RestZero volume file clusters bytes drive := by
  obtain ⟨-, -, extended, clusters', linked, written, result, steps⟩ :=
    fsWrite_steps geometry injective ready opened wrote
  have chain := steps.chain geometry injective opened
  have replaced := steps.contents_eq_iff geometry injective opened inside
  rw [← result] at chain replaced
  constructor
  · intro law
    obtain ⟨others, chain', same⟩ := law.replaced
    rw [chain'.unique chain] at same
    exact replaced.mp same
  · intro zeros
    constructor
    · exact ⟨clusters', chain, replaced.mpr zeros⟩
    · intro other others chain' disjoint apart
      exact steps.other geometry injective opened chain' disjoint apart

/-- A write that returns the number of its bytes replaces exactly these bytes if and only if the
old bytes behind it are zeros where its last sector is filled up. -/
theorem write_law_iff (mounted : Mounted volume)
    (injective : Set.InjOn lba28 {sector | Transferred volume sector}) (ready : drive.Ready)
    (opened : OpenFile volume drive.shown file clusters) (inside : file.pos ≤ file.size)
    (wrote : (fsWrite volume file bytes drive).1 = some bytes.length) :
    WriteLaw volume file clusters bytes drive ↔ RestZero volume file clusters bytes drive :=
  writeLaw_iff mounted.geometry injective ready opened inside wrote

end Law

/-- The small volume with the file `A.TXT` in its directory, and two letters in a sector behind
it. -/
def listed (cluster size : Nat) : Drive where
  sectors sector :=
    if sector = 0 then smallBoot
    else if sector = 1 then
      (ByteMemory.writeLE (fun _ => 0) 8 4 endOfChain).writeLE (4 * cluster) 4 endOfChain
    else if sector = 2 then
      (newEntry (relative shortPath) cluster (fun _ => 0) 0).writeLE 28 4 size
    else if sector = 3 then ByteMemory.storeBytes (fun _ => 0) 0 [65, 66]
    else fun _ => 0
  outcome _ := .done

example : (fsOpen smallVolume shortPath (listed 3 2)).1 = some ⟨3, 2, 0, 2, 0, 0⟩ := by
  decide

theorem listed_openFile (pos : Nat) :
    OpenFile smallVolume (listed 3 2).shown ⟨3, 2, pos, 2, 0, 0⟩ [3] where
  chain := by
    refine ⟨⟨rfl, rfl⟩, ?_, show 2 ≤ [3].length * clusterSize smallVolume by decide⟩
    intro cluster member
    rw [List.mem_singleton.mp member]
    decide
  valid := show clusterValid smallVolume 2 = true by decide
  below := show 0 < smallVolume.sectorsPerCluster by decide
  used := show entryIn smallVolume (listed 3 2).shown 2 ≠ 0 by decide
  apart := show 2 ∉ [3] by decide

/-- A byte is written behind the first one. -/
theorem write_law_iff_second :
    WriteLaw smallVolume ⟨3, 2, 1, 2, 0, 0⟩ [3] [67] (listed 3 2) := by
  apply (write_law_iff smallVolume_mounted
    (injOn_transferred smallVolume_mounted.geometry (by decide)) (fun _ _ => rfl)
    (listed_openFile 1) (by decide) (by decide)).mpr
  rintro position below ⟨behind, -⟩
  exact absurd (Nat.lt_of_le_of_lt behind below) (by decide)

/-- The first byte is written, and the second one is lost. -/
theorem not_write_law :
    ¬∀ (volume : Volume) (file : File) (clusters : List Nat) (bytes : List UInt8) (drive : Drive),
        Mounted volume → Set.InjOn lba28 {sector | Transferred volume sector} → drive.Ready →
        OpenFile volume drive.shown file clusters → file.pos ≤ file.size →
        (fsWrite volume file bytes drive).1 = some bytes.length →
        WriteLaw volume file clusters bytes drive := by
  intro claimed
  have injective := injOn_transferred smallVolume_mounted.geometry (by decide)
  have wrote : (fsWrite smallVolume ⟨3, 2, 0, 2, 0, 0⟩ [67] (listed 3 2)).1 = some 1 := by decide
  have law := claimed smallVolume ⟨3, 2, 0, 2, 0, 0⟩ [3] [67] (listed 3 2) smallVolume_mounted
    injective (fun _ _ => rfl) (listed_openFile 0) (by decide) wrote
  have zeros := (writeLaw_iff smallVolume_mounted.geometry injective (fun _ _ => rfl)
    (listed_openFile 0) (by decide) wrote).mp law
  have second := zeros 1 (by decide) ⟨by decide, by decide, fun _ => rfl⟩
  revert second
  decide

end Charis.Fs
