import Charis.Lib.Blocks
import Charis.Fs.Geometry

/-!
# The contents of a file

A file is what is in the sectors of its clusters, in the order of the allocation table and cut
to its size.  A read returns a part of the file as the drive shows it, which selects a sector
by the lower 28 bits of its number.
-/

namespace Charis.Fs

open Charis.Lib

/-- The entry of a cluster in the allocation table. -/
def fatEntry (volume : Volume) (sectors : Nat → ByteMemory) (cluster : Nat) : Nat :=
  (sectors (fatSector volume cluster)).readLE (entryOffset cluster % sectorSize) 4 % 2 ^ 28

/-- The clusters of a file, each linked to the next one in the allocation table.  A file
without contents need not have any. -/
structure ClusterChain (volume : Volume) (sectors : Nat → ByteMemory) (first size : Nat)
    (clusters : List Nat) : Prop where
  first : ∀ cluster ∈ clusters.head?, cluster = first
  valid : ∀ cluster ∈ clusters, clusterValid volume cluster = true
  linked : clusters.IsChain fun cluster next => fatEntry volume sectors cluster = next
  covers : size ≤ clusters.length * clusterSize volume

/-- The sectors of a cluster. -/
def clusterSectors (volume : Volume) (cluster : Nat) : List Nat :=
  (List.range volume.sectorsPerCluster).map fun index => clusterToSector volume cluster + index

/-- The sectors of a file. -/
def fileSectors (volume : Volume) (clusters : List Nat) : List Nat :=
  clusters.flatMap (clusterSectors volume)

/-- The bytes of a sector. -/
def sectorBytes (sectors : Nat → ByteMemory) (sector : Nat) : List UInt8 :=
  (sectors sector).loadBytes 0 sectorSize

/-- The contents of a file. -/
def contents (volume : Volume) (sectors : Nat → ByteMemory) (clusters : List Nat)
    (size : Nat) : List UInt8 :=
  ((fileSectors volume clusters).flatMap (sectorBytes sectors)).take size

/-- The sectors as the drive shows them. -/
def Drive.shown (drive : Drive) (sector : Nat) : ByteMemory := drive.sectors (lba28 sector)

/-- Every transfer to come is done. -/
def Drive.Ready (drive : Drive) : Prop :=
  ∀ transfer, drive.transfers ≤ transfer → drive.outcome transfer = .done

section Layout

variable {volume : Volume} {sectors : Nat → ByteMemory} {clusters : List Nat}
  {index offset cluster : Nat}

theorem length_sectorBytes (sectors : Nat → ByteMemory) (sector : Nat) :
    (sectorBytes sectors sector).length = sectorSize :=
  ByteMemory.length_loadBytes _ _ _

theorem length_fileSectors (volume : Volume) (clusters : List Nat) :
    (fileSectors volume clusters).length = clusters.length * volume.sectorsPerCluster := by
  apply length_blocks
  intro cluster _
  simp [clusterSectors]

theorem length_fileBytes (volume : Volume) (sectors : Nat → ByteMemory) (clusters : List Nat) :
    ((fileSectors volume clusters).flatMap (sectorBytes sectors)).length =
      clusters.length * clusterSize volume := by
  rw [length_blocks fun sector _ => length_sectorBytes sectors sector, length_fileSectors,
    clusterSize, Nat.mul_assoc]

theorem ClusterChain.length_contents {first size : Nat}
    (chain : ClusterChain volume sectors first size clusters)
    (sectors' : Nat → ByteMemory) :
    (contents volume sectors' clusters size).length = size := by
  rw [contents, List.length_take, length_fileBytes]
  exact Nat.min_eq_left chain.covers

theorem sector_of_position (there : clusters[index]? = some cluster)
    (inside : offset < clusterSize volume) :
    (fileSectors volume clusters)[index * volume.sectorsPerCluster + offset / sectorSize]? =
      some (clusterToSector volume cluster + offset / sectorSize) := by
  have row : offset / sectorSize < volume.sectorsPerCluster :=
    Nat.div_lt_of_lt_mul (by rwa [Nat.mul_comm])
  have uniform (cluster : Nat) (_ : cluster ∈ clusters) :
      (clusterSectors volume cluster).length = volume.sectorsPerCluster := by
    simp [clusterSectors]
  rw [fileSectors, getElem?_blocks uniform there row, clusterSectors, List.getElem?_map,
    List.getElem?_range row, Option.map_some]

theorem part_of_sector (there : clusters[index]? = some cluster)
    (inside : offset < clusterSize volume) {length : Nat}
    (fits : offset % sectorSize + length ≤ sectorSize) :
    (((fileSectors volume clusters).flatMap (sectorBytes sectors)).drop
        (index * clusterSize volume + offset)).take length =
      (sectors (clusterToSector volume cluster + offset / sectorSize)).loadBytes
        (offset % sectorSize) length := by
  have position : index * clusterSize volume + offset =
      (index * volume.sectorsPerCluster + offset / sectorSize) * sectorSize +
        offset % sectorSize := by
    rw [Nat.add_mul, Nat.add_assoc, Nat.div_add_mod', clusterSize, Nat.mul_assoc]
  rw [position, part_of_blocks (fun sector _ => length_sectorBytes sectors sector)
    (sector_of_position there inside) fits]
  rw [sectorBytes, ByteMemory.part_loadBytes fits, Nat.zero_add]

theorem getElem?_contents {size position sector : Nat} (below : position < size)
    (there : (fileSectors volume clusters)[position / sectorSize]? = some sector) :
    (contents volume sectors clusters size)[position]? =
      some (sectors sector (position % sectorSize)) := by
  have inside : position % sectorSize < sectorSize := Nat.mod_lt _ (by decide)
  have byte := getElem?_blocks (fun sector _ => length_sectorBytes sectors sector) there inside
  rw [Nat.div_add_mod'] at byte
  have stored : position % sectorSize < (sectorBytes sectors sector).length := by
    rwa [length_sectorBytes]
  have value := @ByteMemory.getD_loadBytes (sectors sector) 0 sectorSize _ inside
  rw [← sectorBytes, List.getD_eq_getElem _ _ stored, Nat.zero_add] at value
  rw [contents, List.getElem?_take_of_lt below, byte, List.getElem?_eq_getElem stored, value]

end Layout

/-- The table entries and the sectors of a file are the same. -/
structure SameFile (volume : Volume) (clusters : List Nat) (drive drive' : Drive) : Prop where
  entries : ∀ cluster ∈ clusters,
    fatEntry volume drive'.sectors cluster = fatEntry volume drive.sectors cluster
  sectors : ∀ sector ∈ fileSectors volume clusters, drive'.sectors sector = drive.sectors sector
  shown : ∀ sector ∈ fileSectors volume clusters, drive'.shown sector = drive.shown sector

namespace SameFile

variable {volume : Volume} {clusters : List Nat} {drive drive' drive'' : Drive}
  {first size : Nat}

theorem of_sectors (same : drive'.sectors = drive.sectors) :
    SameFile volume clusters drive drive' := by
  constructor
  · intro cluster _
    rw [same]
  · intro sector _
    rw [same]
  · intro sector _
    rw [Drive.shown, Drive.shown, same]

theorem trans (left : SameFile volume clusters drive drive')
    (right : SameFile volume clusters drive' drive'') :
    SameFile volume clusters drive drive'' where
  entries cluster member := (right.entries cluster member).trans (left.entries cluster member)
  sectors sector member := (right.sectors sector member).trans (left.sectors sector member)
  shown sector member := (right.shown sector member).trans (left.shown sector member)

theorem chain (same : SameFile volume clusters drive drive')
    (chain : ClusterChain volume drive.sectors first size clusters) :
    ClusterChain volume drive'.sectors first size clusters where
  first := chain.first
  valid := chain.valid
  linked := by
    rw [List.isChain_iff_getElem]
    intro index below
    rw [same.entries _ (List.getElem_mem _)]
    exact List.isChain_iff_getElem.mp chain.linked index below
  covers := chain.covers

theorem contents_shown (same : SameFile volume clusters drive drive') (size : Nat) :
    contents volume drive'.shown clusters size = contents volume drive.shown clusters size := by
  have bytes : ∀ sector ∈ fileSectors volume clusters,
      sectorBytes drive'.shown sector = sectorBytes drive.shown sector := by
    intro sector member
    rw [sectorBytes, sectorBytes, same.shown sector member]
  rw [contents, contents, List.flatMap_congr bytes]

end SameFile

section Reading

variable {volume : Volume} {drive : Drive} {clusters : List Nat}
  {cluster next index first size : Nat}

theorem Drive.shown_congr {drive' : Drive} (same : drive'.sectors = drive.sectors) :
    drive'.shown = drive.shown := by
  funext sector
  rw [Drive.shown, Drive.shown, same]

theorem ataReadSector_of_ready (ready : drive.Ready) (lba : Nat) :
    ∃ drive', ataReadSector drive lba = (some (drive.shown lba), drive') ∧
      drive'.sectors = drive.sectors ∧ drive'.Ready := by
  refine ⟨{ drive with transfers := drive.transfers + 1 }, ?_, rfl, ?_⟩
  · rw [ataReadSector, ready _ le_rfl]
    rfl
  · intro transfer later
    exact ready transfer (Nat.le_of_succ_le later)

theorem nextCluster_of_linked (geometry : Geometry volume) (ready : drive.Ready)
    (valid : clusterValid volume cluster = true) (valid' : clusterValid volume next = true)
    (linked : fatEntry volume drive.sectors cluster = next) :
    ∃ drive', nextCluster volume drive cluster = (next, drive') ∧
      drive'.sectors = drive.sectors ∧ drive'.Ready := by
  obtain ⟨inTable, reached⟩ := geometry.lba28_fatSector valid
  obtain ⟨drive', read, same, ready'⟩ := ataReadSector_of_ready ready (fatSector volume cluster)
  refine ⟨drive', ?_, same, ready'⟩
  have clusters := geometry.clusters
  obtain ⟨least, most⟩ := bounds_of_clusterValid valid'
  rw [fatEntry] at linked
  unfold nextCluster
  rw [if_neg (by simp [geometry.mounted, valid]), if_neg (not_le.mpr inTable), read]
  simp only [Drive.shown, reached, linked]
  rw [if_neg]
  simp only [valid', Bool.not_true, Bool.false_eq_true, or_false]
  omega

theorem ClusterChain.nextCluster
    (chain : ClusterChain volume drive.sectors first size clusters) (geometry : Geometry volume)
    (ready : drive.Ready) (there : clusters[index]? = some cluster)
    (there' : clusters[index + 1]? = some next) :
    ∃ drive', nextCluster volume drive cluster = (next, drive') ∧
      drive'.sectors = drive.sectors ∧ drive'.Ready := by
  obtain ⟨below', rfl⟩ := List.getElem?_eq_some_iff.mp there'
  obtain ⟨below, rfl⟩ := List.getElem?_eq_some_iff.mp there
  apply nextCluster_of_linked geometry ready
  · exact chain.valid _ (List.getElem_mem _)
  · exact chain.valid _ (List.getElem_mem _)
  · exact List.isChain_iff_getElem.mp chain.linked index below'

theorem nextCluster_ready (ready : drive.Ready) (cluster : Nat) :
    (nextCluster volume drive cluster).2.Ready := by
  unfold nextCluster
  split
  · exact ready
  split
  · exact ready
  obtain ⟨drive', read, -, ready'⟩ := ataReadSector_of_ready ready (fatSector volume cluster)
  rw [read]
  dsimp only
  split
  · exact ready'
  · exact ready'

theorem skipRead_of_chain (geometry : Geometry volume)
    (chain : ClusterChain volume drive.sectors first size clusters) (ready : drive.Ready)
    {count : Nat} (there : clusters[index]? = some cluster)
    (below : index + count < clusters.length) :
    ∃ drive', skipRead volume count cluster drive = (clusters[index + count]?, drive') ∧
      drive'.sectors = drive.sectors ∧ drive'.Ready := by
  induction count generalizing index cluster drive with
  | zero => exact ⟨drive, by rw [skipRead, Nat.add_zero, there], rfl, ready⟩
  | succ count ih =>
  have inside : index + 1 < clusters.length := by omega
  obtain ⟨drive', followed, same, ready'⟩ := chain.nextCluster geometry ready there
    (List.getElem?_eq_getElem inside)
  have valid := chain.valid clusters[index + 1] (List.getElem_mem inside)
  obtain ⟨least, most⟩ := bounds_of_clusterValid valid
  have limit := geometry.clusters
  obtain ⟨drive'', skipped, same', ready''⟩ := @ih drive' clusters[index + 1] (index + 1)
    (same ▸ chain) ready' (List.getElem?_eq_getElem inside) (by omega)
  refine ⟨drive'', ?_, same'.trans same, ready''⟩
  unfold skipRead
  rw [followed]
  dsimp only
  rw [if_neg (by omega), skipped, Nat.add_assoc, Nat.add_comm 1]

theorem readLoop_reads (geometry : Geometry volume)
    (chain : ClusterChain volume drive.sectors first size clusters) (ready : drive.Ready)
    {wanted fuel offset : Nat} {file : File} {bytes : List UInt8}
    (there : wanted ≤ bytes.length ∨ clusters[index]? = some cluster)
    (inside : offset < clusterSize volume)
    (covered : index * clusterSize volume + offset + (wanted - bytes.length) ≤
      clusters.length * clusterSize volume)
    (enough : wanted - bytes.length ≤ fuel) :
    ∃ file' drive', readLoop volume wanted fuel cluster offset file bytes drive =
        (some (bytes ++
          (((fileSectors volume clusters).flatMap (sectorBytes drive.shown)).drop
            (index * clusterSize volume + offset)).take (wanted - bytes.length)),
          file', drive') ∧ drive'.Ready := by
  induction fuel generalizing index cluster offset file bytes drive with
  | zero =>
      rw [Nat.le_zero.mp enough, List.take_zero, List.append_nil]
      exact ⟨file, drive, rfl, ready⟩
  | succ fuel ih =>
  unfold readLoop
  by_cases full : wanted ≤ bytes.length
  · rw [if_pos (.inl full), Nat.sub_eq_zero_of_le full, List.take_zero, List.append_nil]
    exact ⟨file, drive, rfl, ready⟩
  have here := there.resolve_left full
  have valid := chain.valid cluster (List.mem_of_getElem? here)
  obtain ⟨-, onVolume⟩ := geometry.clusterToSector_eq valid
  have total := geometry.total
  have row : offset / sectorSize < volume.sectorsPerCluster :=
    Nat.div_lt_of_lt_mul (by rwa [Nat.mul_comm])
  have sector : (clusterToSector volume cluster + offset / sectorSize) % 2 ^ 32 =
      clusterToSector volume cluster + offset / sectorSize := by
    apply Nat.mod_eq_of_lt
    simp only [sectorSize] at row ⊢
    omega
  obtain ⟨drive', read, same, ready'⟩ := ataReadSector_of_ready ready
    (clusterToSector volume cluster + offset / sectorSize)
  rw [if_neg (by simp [full, valid])]
  dsimp only
  rw [sector, if_neg (by simp only [noSector, sectorSize] at row ⊢; omega), read]
  dsimp only
  generalize lengthEq : min (wanted - bytes.length) (sectorSize - offset % sectorSize) = length
  have fits : offset % sectorSize + length ≤ sectorSize := by
    simp only [sectorSize] at lengthEq ⊢
    omega
  have onward : wanted - bytes.length = length +
      (wanted - (bytes ++ (drive.shown (clusterToSector volume cluster +
        offset / sectorSize)).loadBytes (offset % sectorSize) length).length) := by
    rw [List.length_append, ByteMemory.length_loadBytes]
    omega
  have progress : 0 < length := by
    simp only [sectorSize] at lengthEq
    omega
  rw [onward, List.take_add, part_of_sector here inside fits, List.drop_drop,
    ← List.append_assoc]
  generalize bytes ++ (drive.shown (clusterToSector volume cluster +
    offset / sectorSize)).loadBytes (offset % sectorSize) length = bytes' at onward ⊢
  rw [← Drive.shown_congr same]
  split
  · next last =>
      -- the position is the first of the next cluster
      have boundary : offset + length = clusterSize volume := by
        have rows : (offset / sectorSize + 1) * sectorSize ≤ clusterSize volume :=
          Nat.mul_le_mul_right _ row
        simp only [sectorSize] at rows fits
        omega
      have position : index * clusterSize volume + offset + length =
          (index + 1) * clusterSize volume + 0 := by
        rw [Nat.add_assoc, boundary, Nat.succ_mul, Nat.add_zero]
      have same' := (@nextCluster_sectors volume drive' cluster).trans same
      have ready'' := @nextCluster_ready volume drive' ready' cluster
      have there' : wanted ≤ bytes'.length ∨
          clusters[index + 1]? = some (nextCluster volume drive' cluster).1 := by
        cases following : clusters[index + 1]? with
        | none =>
            have ended : clusters.length * clusterSize volume ≤
                (index + 1) * clusterSize volume :=
              Nat.mul_le_mul_right _ (List.getElem?_eq_none_iff.mp following)
            left
            omega
        | some next =>
            obtain ⟨drive'', followed, -⟩ :=
              ClusterChain.nextCluster (same ▸ chain) geometry ready' here following
            right
            rw [followed]
      generalize nextCluster volume drive' cluster = result at same' ready'' there' ⊢
      obtain ⟨next, drive''⟩ := result
      rw [position, ← Drive.shown_congr (same'.trans same.symm)]
      apply ih (same' ▸ chain) ready'' there' (by omega)
      · omega
      · omega
  · next more =>
      rw [Nat.add_assoc]
      apply ih (same ▸ chain) ready' (.inr here) (not_le.mp more)
      · omega
      · omega

theorem fsRead_reads (geometry : Geometry volume) {file : File}
    (chain : ClusterChain volume drive.sectors file.cluster file.size clusters)
    (ready : drive.Ready) (count : Nat) :
    ∃ file' drive', fsRead volume file count drive =
        (some (((contents volume drive.shown clusters file.size).drop file.pos).take count),
          file', drive') ∧ drive'.Ready := by
  have length := chain.length_contents drive.shown
  unfold fsRead
  rw [if_neg (by simp [geometry.mounted])]
  split
  · next ended =>
      rw [List.drop_of_length_le (by omega), List.take_nil]
      exact ⟨file, drive, rfl, ready⟩
  next more =>
  have size : 0 < clusterSize volume := Nat.mul_pos geometry.perCluster (by decide)
  have covers := chain.covers
  have below : file.pos / clusterSize volume < clusters.length :=
    Nat.div_lt_of_lt_mul (by rw [Nat.mul_comm]; omega)
  have first : clusters[0]? = some file.cluster := by
    cases clusters with
    | nil => cases below
    | cons cluster rest => rw [List.getElem?_cons_zero, chain.first cluster rfl]
  have valid := chain.valid file.cluster (List.mem_of_getElem? first)
  dsimp only
  rw [if_neg (by simp [valid])]
  obtain ⟨drive', skipped, same, ready'⟩ :=
    skipRead_of_chain geometry chain ready first (by rwa [Nat.zero_add])
  rw [Nat.zero_add, List.getElem?_eq_getElem below] at skipped
  rw [skipped]
  dsimp only
  obtain ⟨file', drive'', read, ready''⟩ := @readLoop_reads volume drive' clusters
    clusters[file.pos / clusterSize volume] (file.pos / clusterSize volume) file.cluster
    file.size geometry (same ▸ chain) ready' (min count (file.size - file.pos))
    (min count (file.size - file.pos)) (file.pos % clusterSize volume) file []
    (.inr (List.getElem?_eq_getElem below)) (Nat.mod_lt _ size)
    (by
      rw [Nat.div_add_mod']
      simp only [List.length_nil]
      omega)
    (by simp)
  refine ⟨file', drive'', ?_, ready''⟩
  rw [read, Nat.div_add_mod', Drive.shown_congr same, contents, List.drop_take,
    List.take_take, List.nil_append, List.length_nil, Nat.sub_zero]

theorem scanSectors_found {path : List UInt8} {sector remaining s : Nat} {file : File}
    (found : (scanSectors path cluster sector remaining s drive).1 = .found file) :
    file.cluster < 2 ^ 32 ∧ file.size < 2 ^ 32 := by
  induction remaining generalizing s drive with
  | zero => cases found
  | succ remaining ih =>
  unfold scanSectors at found
  generalize ataReadSector drive ((sector + s) % 2 ^ 32) = result at found
  obtain ⟨buffer, drive'⟩ := result
  cases buffer with
  | none => cases found
  | some buffer =>
  dsimp only at found
  split at found
  · exact ih found
  · next entry _ =>
      cases found
      have high := buffer.readLE_lt (32 * entry + 20) 2
      have low := buffer.readLE_lt (32 * entry + 26) 2
      have size := buffer.readLE_lt (32 * entry + 28) 4
      dsimp only
      omega

/-- The first cluster and the size of a file that `fs_open` finds are 32-bit numbers. -/
theorem fsOpen_found {path : List UInt8} {file : File}
    (found : (fsOpen volume path drive).1 = some file) :
    file.cluster < 2 ^ 32 ∧ file.size < 2 ^ 32 := by
  have looped {remaining cluster : Nat} {path : List UInt8} {drive : Drive}
      (found : (openLoop volume path remaining cluster drive).1 = some file) :
      file.cluster < 2 ^ 32 ∧ file.size < 2 ^ 32 := by
    induction remaining generalizing cluster drive with
    | zero => cases found
    | succ remaining ih =>
    unfold openLoop at found
    split at found
    · cases found
    split at found
    · cases found
    have scanned := @scanSectors_found drive cluster path
      (clusterToSector volume cluster) volume.sectorsPerCluster 0
    generalize scanSectors path cluster (clusterToSector volume cluster)
      volume.sectorsPerCluster 0 drive = result at found scanned
    obtain ⟨scan, drive'⟩ := result
    cases scan with
    | failed => cases found
    | found file' =>
        cases found
        exact scanned rfl
    | missing =>
        dsimp only at found
        split at found
        · cases found
        · exact ih found
  unfold fsOpen at found
  split at found
  · cases found
  · exact looped found

end Reading

end Charis.Fs
