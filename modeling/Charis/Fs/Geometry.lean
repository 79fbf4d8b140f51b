import Charis.Lib.Ranges
import Charis.Fs.Fat

/-!
# The geometry of a volume

What `fs_init` checks of a boot sector is enough to keep the sectors of clusters and of the
allocation tables on the volume and apart from each other, without an overflow of any 32-bit
number.  It is not enough for the drive, which selects a sector by the lower 28 bits of its
number.
-/

namespace Charis.Fs

open Charis.Lib

/-- A volume that `fs_init` has mounted. -/
def Mounted (volume : Volume) : Prop :=
  volume.mounted = true ∧ ∃ drive, (fsInit drive).1 = volume

/-- What `fs_init` has checked. -/
structure Geometry (volume : Volume) : Prop where
  mounted : volume.mounted = true
  perCluster : 0 < volume.sectorsPerCluster
  reserved : volume.fatStart < 2 ^ 16
  copies : 0 < volume.numFats
  tables : volume.fatStart + volume.numFats * volume.fatSize32 ≤ volume.dataStart
  inside : volume.dataStart + volume.totalClusters * volume.sectorsPerCluster ≤
    volume.totalSectors32
  total : volume.totalSectors32 < 2 ^ 32
  some : 0 < volume.totalClusters
  clusters : volume.totalClusters ≤ 0x0FFFFFEE
  entries : volume.totalClusters + 2 ≤ volume.fatSize32 * 128

theorem Mounted.geometry {volume : Volume} (mounted : Mounted volume) : Geometry volume := by
  obtain ⟨isMounted, drive, rfl⟩ := mounted
  unfold fsInit at isMounted ⊢
  generalize ataReadSector drive 0 = result at isMounted ⊢
  obtain ⟨boot, drive'⟩ := result
  cases boot with
  | none => cases isMounted
  | some boot =>
  dsimp only at isMounted ⊢
  split at isMounted
  · cases isMounted
  split at isMounted
  · cases isMounted
  split at isMounted
  · cases isMounted
  split at isMounted
  · cases isMounted
  split at isMounted
  · cases isMounted
  next named fields sizes clusters root =>
  rw [if_neg named, if_neg fields, if_neg sizes, if_neg clusters, if_neg root]
  simp only [not_or, not_lt, not_le] at fields sizes clusters
  have fit := Nat.div_mul_le_self (boot.readLE 32 4 - (boot.readLE 14 2 +
    (boot 16).toNat * boot.readLE 36 4 +
    (boot.readLE 17 2 * 32 + (sectorSize - 1)) / sectorSize)) (boot 13).toNat
  exact {
    mounted := rfl
    perCluster := Nat.pos_of_ne_zero fields.2.1
    reserved := boot.readLE_lt 14 2
    copies := Nat.pos_of_ne_zero fields.2.2.2.2.2.1
    tables := Nat.le_add_right _ _
    inside := by
      dsimp only
      omega
    total := boot.readLE_lt 32 4
    some := Nat.pos_of_ne_zero clusters.1
    clusters := clusters.2.1
    entries := by
      have entries := clusters.2.2
      simp only [sectorSize] at entries ⊢
      omega }

section Clusters

variable {volume : Volume} {cluster : Nat}

theorem bounds_of_clusterValid (valid : clusterValid volume cluster = true) :
    2 ≤ cluster ∧ cluster < volume.totalClusters + 2 := by
  simpa [clusterValid] using valid

theorem Geometry.clusterToSector_eq (geometry : Geometry volume)
    (valid : clusterValid volume cluster = true) :
    clusterToSector volume cluster =
        volume.dataStart + (cluster - 2) * volume.sectorsPerCluster ∧
      clusterToSector volume cluster + volume.sectorsPerCluster ≤ volume.totalSectors32 := by
  obtain ⟨least, most⟩ := bounds_of_clusterValid valid
  have before : (cluster - 2 + 1) * volume.sectorsPerCluster ≤
      volume.totalClusters * volume.sectorsPerCluster :=
    Nat.mul_le_mul_right _ (by omega)
  have inside := geometry.inside
  have total := geometry.total
  have perCluster := geometry.perCluster
  rw [Nat.succ_mul] at before
  have value : clusterToSector volume cluster =
      volume.dataStart + (cluster - 2) * volume.sectorsPerCluster := by
    rw [clusterToSector, valid]
    exact Nat.mod_eq_of_lt (by omega)
  rw [value]
  exact ⟨rfl, by omega⟩

/-- The entry of a cluster lies in the table. -/
theorem Geometry.fatSector_eq (geometry : Geometry volume)
    (valid : clusterValid volume cluster = true) :
    entryOffset cluster = cluster * 4 ∧
      fatSector volume cluster = volume.fatStart + cluster / 128 ∧
      cluster / 128 < volume.fatSize32 := by
  obtain ⟨least, most⟩ := bounds_of_clusterValid valid
  have entries := geometry.entries
  have clusters := geometry.clusters
  have reserved := geometry.reserved
  have offset : entryOffset cluster = cluster * 4 := Nat.mod_eq_of_lt (by omega)
  refine ⟨offset, ?_, by omega⟩
  rw [fatSector, offset]
  simp only [sectorSize]
  omega

/-- The allocation table is where the address registers reach. -/
theorem Geometry.lba28_fatSector (geometry : Geometry volume)
    (valid : clusterValid volume cluster = true) :
    entryOffset cluster / sectorSize < volume.fatSize32 ∧
      lba28 (fatSector volume cluster) = fatSector volume cluster := by
  obtain ⟨offset, table, first⟩ := geometry.fatSector_eq valid
  obtain ⟨least, most⟩ := bounds_of_clusterValid valid
  have clusters := geometry.clusters
  have reserved := geometry.reserved
  rw [lba28, table, offset]
  simp only [sectorSize]
  omega

/-- A cluster lies where the driver computes, and no computation overflows. -/
structure Placed (volume : Volume) (cluster : Nat) : Prop where
  product : volume.dataStart + (cluster - 2) * volume.sectorsPerCluster < 2 ^ 32
  sector : clusterToSector volume cluster =
    volume.dataStart + (cluster - 2) * volume.sectorsPerCluster
  inside : clusterToSector volume cluster + volume.sectorsPerCluster ≤ volume.totalSectors32
  apart : ∀ other, clusterValid volume other = true → other ≠ cluster →
    clusterToSector volume cluster + volume.sectorsPerCluster ≤ clusterToSector volume other ∨
      clusterToSector volume other + volume.sectorsPerCluster ≤ clusterToSector volume cluster
  offset : cluster * 4 < 2 ^ 32 ∧ entryOffset cluster = cluster * 4
  entry : cluster * 4 + 4 ≤ volume.fatSize32 * sectorSize ∧
    entryOffset cluster % sectorSize + 4 ≤ sectorSize
  table : volume.fatStart + cluster * 4 / sectorSize < 2 ^ 32 ∧
    fatSector volume cluster = volume.fatStart + cluster * 4 / sectorSize
  first : fatSector volume cluster < volume.fatStart + volume.fatSize32
  mirror : 2 ≤ volume.numFats → fatSector volume cluster + volume.fatSize32 < volume.dataStart

/-- Different clusters have different sectors. -/
theorem Geometry.apart (geometry : Geometry volume) {other : Nat}
    (valid : clusterValid volume cluster = true) (valid' : clusterValid volume other = true)
    (before : cluster < other) :
    clusterToSector volume cluster + volume.sectorsPerCluster ≤ clusterToSector volume other := by
  obtain ⟨least, -⟩ := bounds_of_clusterValid valid
  rw [(geometry.clusterToSector_eq valid).1, (geometry.clusterToSector_eq valid').1]
  have rows : (cluster - 2 + 1) * volume.sectorsPerCluster ≤
      (other - 2) * volume.sectorsPerCluster := Nat.mul_le_mul_right _ (by omega)
  rw [Nat.succ_mul] at rows
  omega

/-- Two tables fit in front of the clusters when there are two. -/
theorem Geometry.mirror (geometry : Geometry volume) (two : 2 ≤ volume.numFats) :
    volume.fatStart + volume.fatSize32 + volume.fatSize32 ≤ volume.dataStart := by
  have tables := geometry.tables
  have copies : 2 * volume.fatSize32 ≤ volume.numFats * volume.fatSize32 :=
    Nat.mul_le_mul_right _ two
  omega

theorem Geometry.placed (geometry : Geometry volume)
    (valid : clusterValid volume cluster = true) : Placed volume cluster := by
  obtain ⟨least, most⟩ := bounds_of_clusterValid valid
  obtain ⟨sector, inside⟩ := geometry.clusterToSector_eq valid
  obtain ⟨offset, table, first⟩ := geometry.fatSector_eq valid
  have entries := geometry.entries
  have clusters := geometry.clusters
  have reserved := geometry.reserved
  have total := geometry.total
  have row : cluster * 4 / sectorSize = cluster / 128 := by
    simp only [sectorSize]
    omega
  exact {
    product := by omega
    sector := sector
    inside := inside
    apart := by
      intro other valid' different
      rcases Nat.lt_or_gt_of_ne different with before | after
      · exact .inr (geometry.apart valid' valid before)
      · exact .inl (geometry.apart valid valid' after)
    offset := ⟨by omega, offset⟩
    entry := by
      rw [offset]
      simp only [sectorSize]
      omega
    table := by
      rw [row]
      exact ⟨by omega, table⟩
    first := by omega
    mirror := by
      intro two
      have fits := geometry.mirror two
      omega }

/-- Whatever boot sector is accepted, the clusters and the tables are placed without overflow. -/
theorem fsInit_placed (drive : Drive) (mounted : (fsInit drive).1.mounted = true) (cluster : Nat)
    (valid : clusterValid (fsInit drive).1 cluster = true) : Placed (fsInit drive).1 cluster :=
  Geometry.placed (Mounted.geometry ⟨mounted, drive, rfl⟩) valid

end Clusters

/-- The boot sector of a volume with clusters of 128 sectors and one allocation table. -/
def sampleBoot (totalSectors : Nat) : ByteMemory :=
  ByteMemory.writeLE (fun _ => 0) 11 2 512
    |>.writeLE 13 1 128 |>.writeLE 14 2 32 |>.writeLE 16 1 1 |>.writeLE 32 4 totalSectors
    |>.writeLE 36 4 16400 |>.writeLE 44 4 2 |>.storeBytes 82 [70, 65, 84, 51, 50]

def bootDrive (totalSectors : Nat) : Drive where
  sectors _ := sampleBoot totalSectors
  outcome _ := .done

theorem fsInit_placed_last : Placed (fsInit (bootDrive 0x10010000)).1 2097536 :=
  fsInit_placed (bootDrive 0x10010000) rfl 2097536 rfl

/-- The sectors that the driver transfers for a volume. -/
inductive Transferred (volume : Volume) : Nat → Prop
  | table {cluster : Nat} : clusterValid volume cluster = true →
      Transferred volume (fatSector volume cluster)
  | mirror {cluster : Nat} : clusterValid volume cluster = true → 2 ≤ volume.numFats →
      Transferred volume (fatSector volume cluster + volume.fatSize32)
  | data {cluster index : Nat} : clusterValid volume cluster = true →
      index < volume.sectorsPerCluster →
      Transferred volume (clusterToSector volume cluster + index)

/-- How many sectors of a table have entries of clusters. -/
def tableLength (volume : Volume) : Nat := (volume.totalClusters + 1) / 128 + 1

/-- How many sectors the clusters have. -/
def dataLength (volume : Volume) : Nat := volume.totalClusters * volume.sectorsPerCluster

/-- The tables and the clusters stay apart when the numbers of their sectors are cut to 28
bits. -/
structure Addressable (volume : Volume) : Prop where
  data : dataLength volume ≤ 2 ^ 28
  table : ApartMod (2 ^ 28) volume.fatStart (tableLength volume) volume.dataStart
    (dataLength volume)
  copies : 2 ≤ volume.numFats →
    ApartMod (2 ^ 28) volume.fatStart (tableLength volume) (volume.fatStart + volume.fatSize32)
      (tableLength volume)
  mirror : 2 ≤ volume.numFats →
    ApartMod (2 ^ 28) (volume.fatStart + volume.fatSize32) (tableLength volume) volume.dataStart
      (dataLength volume)

section Reach

variable {volume : Volume}

theorem tableLength_le (geometry : Geometry volume) :
    0 < tableLength volume ∧ tableLength volume ≤ volume.fatSize32 ∧
      tableLength volume ≤ 2 ^ 28 := by
  have entries := geometry.entries
  have clusters := geometry.clusters
  simp only [tableLength]
  omega

theorem dataLength_pos (geometry : Geometry volume) : 0 < dataLength volume :=
  Nat.mul_pos geometry.some geometry.perCluster

theorem table_iff (geometry : Geometry volume) (sector : Nat) :
    (∃ cluster, clusterValid volume cluster = true ∧ sector = fatSector volume cluster) ↔
      sector ∈ Set.Ico volume.fatStart (volume.fatStart + tableLength volume) := by
  have some := geometry.some
  constructor
  · rintro ⟨cluster, valid, rfl⟩
    obtain ⟨least, most⟩ := bounds_of_clusterValid valid
    rw [(geometry.fatSector_eq valid).2.1]
    simp only [tableLength, Set.mem_Ico]
    omega
  · rintro ⟨least, most⟩
    simp only [tableLength] at most
    have valid : clusterValid volume (max 2 ((sector - volume.fatStart) * 128)) = true := by
      simp only [clusterValid, Bool.and_eq_true, decide_eq_true_eq]
      omega
    refine ⟨_, valid, ?_⟩
    rw [(geometry.fatSector_eq valid).2.1]
    omega

/-- The sectors of the clusters. -/
theorem data_iff (geometry : Geometry volume) (sector : Nat) :
    (∃ cluster index, clusterValid volume cluster = true ∧ index < volume.sectorsPerCluster ∧
        sector = clusterToSector volume cluster + index) ↔
      sector ∈ Set.Ico volume.dataStart (volume.dataStart + dataLength volume) := by
  constructor
  · rintro ⟨cluster, index, valid, below, rfl⟩
    obtain ⟨least, most⟩ := bounds_of_clusterValid valid
    rw [(geometry.clusterToSector_eq valid).1]
    have rows : (cluster - 2 + 1) * volume.sectorsPerCluster ≤ dataLength volume :=
      Nat.mul_le_mul_right _ (by omega)
    rw [Nat.succ_mul] at rows
    constructor
    · omega
    · omega
  · rintro ⟨least, most⟩
    obtain ⟨index, rfl⟩ := Nat.exists_eq_add_of_le least
    have row : index / volume.sectorsPerCluster < volume.totalClusters :=
      Nat.div_lt_of_lt_mul (by rw [Nat.mul_comm]; exact Nat.lt_of_add_lt_add_left most)
    have valid : clusterValid volume (index / volume.sectorsPerCluster + 2) = true := by
      rw [clusterValid, Bool.and_eq_true, decide_eq_true_eq, decide_eq_true_eq]
      exact ⟨Nat.le_add_left _ _, Nat.add_lt_add_right row 2⟩
    refine ⟨_, _, valid, Nat.mod_lt index geometry.perCluster, ?_⟩
    rw [(geometry.clusterToSector_eq valid).1, Nat.add_sub_cancel, Nat.add_assoc,
      Nat.div_add_mod']

/-- The sectors are those of one table or two and of the clusters. -/
theorem transferred_eq (geometry : Geometry volume) :
    {sector | Transferred volume sector} =
      Set.Ico volume.fatStart (volume.fatStart + tableLength volume) ∪
        {sector | 2 ≤ volume.numFats ∧
          sector ∈ Set.Ico (volume.fatStart + volume.fatSize32)
            (volume.fatStart + volume.fatSize32 + tableLength volume)} ∪
        Set.Ico volume.dataStart (volume.dataStart + dataLength volume) := by
  ext sector
  constructor
  · intro transferred
    cases transferred with
    | table valid => exact .inl (.inl ((table_iff geometry _).mp ⟨_, valid, rfl⟩))
    | mirror valid two =>
        obtain ⟨least, most⟩ := (table_iff geometry _).mp ⟨_, valid, rfl⟩
        exact .inl (.inr ⟨two, by omega, by omega⟩)
    | data valid below => exact .inr ((data_iff geometry _).mp ⟨_, _, valid, below, rfl⟩)
  · rintro ((table | ⟨two, least, most⟩) | data)
    · obtain ⟨cluster, valid, rfl⟩ := (table_iff geometry _).mpr table
      exact .table valid
    · obtain ⟨copy, rfl⟩ := Nat.exists_eq_add_of_le' (Nat.le_trans (Nat.le_add_left _ _) least)
      obtain ⟨cluster, valid, rfl⟩ := (table_iff geometry copy).mpr ⟨by omega, by omega⟩
      exact .mirror valid two
    · obtain ⟨cluster, index, valid, below, rfl⟩ := (data_iff geometry _).mpr data
      exact .data valid below

/-- Different sectors of a volume stay different for the drive, exactly when its tables and its
clusters stay apart. -/
theorem lba28_injOn_iff (drive : Drive) (mounted : (fsInit drive).1.mounted = true) :
    Set.InjOn lba28 {sector | Transferred (fsInit drive).1 sector} ↔
      Addressable (fsInit drive).1 := by
  have geometry := Mounted.geometry ⟨mounted, drive, rfl⟩
  generalize (fsInit drive).1 = volume at geometry
  obtain ⟨some, fits, short⟩ := tableLength_le geometry
  have some' := dataLength_pos geometry
  have positive : 0 < 2 ^ 28 := by decide
  have reduced : lba28 = (· % 2 ^ 28) := rfl
  have one : volume.fatStart + volume.fatSize32 ≤ volume.dataStart := by
    have copies := Nat.le_mul_of_pos_left volume.fatSize32 geometry.copies
    have tables := geometry.tables
    omega
  have before : Disjoint (Set.Ico volume.fatStart (volume.fatStart + tableLength volume))
      (Set.Ico volume.dataStart (volume.dataStart + dataLength volume)) :=
    Set.Ico_disjoint_Ico.mpr (by omega)
  rw [transferred_eq geometry, reduced]
  by_cases two : 2 ≤ volume.numFats
  · have mirror := geometry.mirror two
    have copies : Disjoint (Set.Ico volume.fatStart (volume.fatStart + tableLength volume))
        (Set.Ico (volume.fatStart + volume.fatSize32)
          (volume.fatStart + volume.fatSize32 + tableLength volume)) :=
      Set.Ico_disjoint_Ico.mpr (by omega)
    have after : Disjoint (Set.Ico (volume.fatStart + volume.fatSize32)
          (volume.fatStart + volume.fatSize32 + tableLength volume))
        (Set.Ico volume.dataStart (volume.dataStart + dataLength volume)) :=
      Set.Ico_disjoint_Ico.mpr (by omega)
    simp only [two, true_and, Set.ofPred_mem_eq]
    rw [Set.injOn_union (Set.disjoint_union_left.mpr ⟨before, after⟩), Set.injOn_union copies,
      injOn_mod_iff positive, injOn_mod_iff positive, injOn_mod_iff positive,
      ← apartMod_iff positive some some]
    simp only [Set.mem_union, or_imp, forall_and]
    rw [← apartMod_iff positive some some', ← apartMod_iff positive some some']
    constructor
    · rintro ⟨⟨-, -, apart⟩, data, table, copy⟩
      exact ⟨data, table, fun _ => apart, fun _ => copy⟩
    · intro addressable
      exact ⟨⟨short, short, addressable.copies two⟩, addressable.data, addressable.table,
        addressable.mirror two⟩
  · simp only [two, false_and, Set.ofPred_false, Set.union_empty]
    rw [Set.injOn_union before, injOn_mod_iff positive, injOn_mod_iff positive,
      ← apartMod_iff positive some some']
    constructor
    · rintro ⟨-, data, apart⟩
      exact ⟨data, apart, fun impossible => (two impossible).elim,
        fun impossible => (two impossible).elim⟩
    · intro addressable
      exact ⟨short, addressable.data, addressable.table⟩

/-- A volume of 32 MiB. -/
theorem lba28_injOn_small :
    Set.InjOn lba28 {sector | Transferred (fsInit (bootDrive 0x10000)).1 sector} := by
  apply (lba28_injOn_iff (bootDrive 0x10000) rfl).mpr
  have volume : (fsInit (bootDrive 0x10000)).1 =
      ⟨true, 128, 1, 16400, 0x10000, 2, 32, 16432, 383⟩ := rfl
  rw [volume]
  constructor
  · decide
  · decide
  · decide
  · decide

/-- On a volume of 128 GiB and 32 MiB a sector of a cluster is taken for one of the table. -/
theorem lba28_not_injOn_large :
    ¬ Set.InjOn lba28 {sector | Transferred (fsInit (bootDrive 0x10010000)).1 sector} := by
  have table : Transferred (fsInit (bootDrive 0x10010000)).1 48 := @Transferred.table _ 2048 rfl
  have data : Transferred (fsInit (bootDrive 0x10010000)).1 (2 ^ 28 + 48) :=
    @Transferred.data _ 2097026 0 rfl (by decide)
  intro injective
  have same := injective table data (by decide)
  revert same
  decide

end Reach

end Charis.Fs
