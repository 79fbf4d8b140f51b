import Charis.Fs.CreateLaw

/-!
# Allocation and writing when transfers fail

Each of the transfers of a call can fail.  An allocation that has stored an entry of the first
table has taken a cluster, whatever comes after it, and no later step of a write frees it.  The
loop over the sectors of a write changes sectors of the file's own clusters only.
-/

namespace Charis.Fs

open Charis.Lib

/-- A cluster that was free is not free any more. -/
def Taken (volume : Volume) (before after : Nat → ByteMemory) : Prop :=
  ∃ cluster, clusterValid volume cluster = true ∧ entryIn volume before cluster = 0 ∧
    entryIn volume after cluster ≠ 0

/-- No cluster is freed. -/
def Keeps (volume : Volume) (before after : Nat → ByteMemory) : Prop :=
  ∀ cluster, clusterValid volume cluster = true → entryIn volume before cluster ≠ 0 →
    entryIn volume after cluster ≠ 0

/-- The sectors of the clusters that are linked to a first one. -/
def OwnSector (volume : Volume) (disk : Nat → ByteMemory) (first sector : Nat) : Prop :=
  ∃ cluster s, Relation.ReflTransGen (fun a b => entryIn volume disk a = b) first cluster ∧
    clusterValid volume cluster = true ∧ s < volume.sectorsPerCluster ∧
    sector = clusterToSector volume cluster + s

/-- Among the sectors of the volume only those of a file have changed. -/
def OwnChange (volume : Volume) (first : Nat) (before after : Nat → ByteMemory) : Prop :=
  ∀ sector, Transferred volume sector → ¬OwnSector volume before first sector →
    after sector = before sector

/-- The allocation table, and with it every chain, is the same, and so are the entries of the
directory, apart from some sectors. -/
structure MetadataSame (volume : Volume) (own : Nat → Prop) (before after : Nat → ByteMemory) :
    Prop where
  entries : ∀ cluster, clusterValid volume cluster = true →
    entryIn volume after cluster = entryIn volume before cluster
  directory : ∀ slot ∈ rootSlots volume before, ¬own slot.sector → ∀ offset < 32,
    after slot.sector (32 * slot.index + offset) =
      before slot.sector (32 * slot.index + offset)

section Metadata

variable {volume : Volume} {before after last : Nat → ByteMemory} {own : Nat → Prop}
  {first : Nat}

theorem MetadataSame.refl (disk : Nat → ByteMemory) : MetadataSame volume own disk disk :=
  ⟨fun _ _ => rfl, fun _ _ _ _ _ => rfl⟩

theorem Taken.not_same (taken : Taken volume before after) :
    ¬MetadataSame volume own before after := by
  intro same
  obtain ⟨cluster, valid, free, not_free⟩ := taken
  exact not_free ((same.entries cluster valid).trans free)

theorem Taken.keeps (taken : Taken volume before after) (keeps : Keeps volume after last) :
    Taken volume before last := by
  obtain ⟨cluster, valid, free, not_free⟩ := taken
  exact ⟨cluster, valid, free, keeps cluster valid not_free⟩

theorem Keeps.refl (disk : Nat → ByteMemory) : Keeps volume disk disk := fun _ _ used => used

theorem Keeps.trans (left : Keeps volume before after) (right : Keeps volume after last) :
    Keeps volume before last :=
  fun cluster valid used => right cluster valid (left cluster valid used)

theorem TableChange.keeps {sectors : Set Nat} {cluster value : Nat} (nonzero : value ≠ 0)
    (change : TableChange volume sectors cluster value before after) :
    Keeps volume before after := by
  intro other valid used
  rw [change.entries other valid]
  split
  · exact nonzero
  · exact used

theorem TableChange.taken {sectors : Set Nat} {cluster value : Nat}
    (valid : clusterValid volume cluster = true) (nonzero : value ≠ 0)
    (free : entryIn volume before cluster = 0)
    (change : TableChange volume sectors cluster value before after) :
    Taken volume before after := by
  refine ⟨cluster, valid, free, ?_⟩
  rw [change.entries cluster valid, if_pos rfl]
  exact nonzero

/-- The table does not belong to a file. -/
theorem OwnChange.entries (geometry : Geometry volume)
    (change : OwnChange volume first before after) {cluster : Nat}
    (valid : clusterValid volume cluster = true) :
    entryIn volume after cluster = entryIn volume before cluster := by
  rw [entryIn, entryIn, change _ (.table valid)]
  rintro ⟨other, s, -, valid', -, same⟩
  exact geometry.not_tableSector valid' s (same ▸ .table valid)

theorem OwnChange.metadataSame (geometry : Geometry volume)
    (change : OwnChange volume first before after) :
    MetadataSame volume (OwnSector volume before first) before after := by
  constructor
  · intro cluster valid
    exact change.entries geometry valid
  · intro slot member foreign offset _
    obtain ⟨cluster, of_root, s, below, sector⟩ := mem_slotsIn member
    rw [change _ (sector ▸ .data (valid_of_mem_walk of_root) below) foreign]

theorem apart_of_injOn (apart : Set.InjOn lba28 {sector | Transferred volume sector}) :
    Apart volume {sector | Transferred volume sector} := by
  constructor
  · exact apart
  · intro sector of_table
    cases of_table with
    | table valid => exact .table valid
    | mirror valid two => exact .mirror valid two

end Metadata

section Allocation

variable {volume : Volume} {sectors : Set Nat} {drive : Drive} {cluster : Nat}

/-- The drive after a transfer that stores nothing. -/
def Drive.tick (drive : Drive) : Drive := { drive with transfers := drive.transfers + 1 }

@[simp] theorem Drive.tick_shown (drive : Drive) : drive.tick.shown = drive.shown := rfl

@[simp] theorem Drive.tick_outcome (drive : Drive) : drive.tick.outcome = drive.outcome := rfl

theorem Drive.tick_transfers (drive : Drive) (count : Nat) :
    drive.tick.transfers + count = drive.transfers + (count + 1) :=
  Nat.add_right_comm drive.transfers 1 count

/-- The search for a free cluster comes to one whose entry is read, and the transfers after it
store its entry. -/
def StoresFree (volume : Volume) (drive : Drive) (remaining cluster : Nat) : Prop :=
  ∃ k < remaining,
    (∀ j < k, ¬(drive.outcome (drive.transfers + j) = .done ∧
      entryIn volume drive.shown (cluster + j) = 0)) ∧
    (drive.outcome (drive.transfers + k) = .done ∧
      entryIn volume drive.shown (cluster + k) = 0) ∧
    drive.outcome (drive.transfers + k + 1) = .done ∧
    drive.outcome (drive.transfers + k + 2) ≠ .failed

/-- `fat_alloc_cluster` finds a free cluster and stores its entry. -/
def AllocationStores (volume : Volume) (drive : Drive) : Prop :=
  StoresFree volume drive volume.totalClusters 2

theorem fatGet_eq (geometry : Geometry volume) (valid : clusterValid volume cluster = true) :
    fatGet volume drive cluster =
      (if drive.outcome drive.transfers = .done then entryIn volume drive.shown cluster
        else endOfChain, drive.tick) := by
  obtain ⟨-, place, row⟩ := geometry.fatSector_eq valid
  have tables := geometry.tables
  have inside := geometry.inside
  have mounted : ¬(!volume.mounted || !clusterValid volume cluster) = true := by
    simp [geometry.mounted, valid]
  have on_volume : ¬volume.totalSectors32 ≤ fatSector volume cluster := by
    have : volume.fatSize32 ≤ volume.numFats * volume.fatSize32 :=
      Nat.le_mul_of_pos_left _ geometry.copies
    omega
  rw [fatGet, if_neg mounted, if_neg (not_le.mpr (geometry.lba28_fatSector valid).1),
    if_neg on_volume, ataReadSector]
  cases drive.outcome drive.transfers with
  | done => rfl
  | failed => rfl
  | late => rfl

/-- An entry that is not the end of a chain is that of the table. -/
theorem fatGet_entry (entry : (fatGet volume drive cluster).1 ≠ endOfChain) :
    entryIn volume drive.shown cluster = (fatGet volume drive cluster).1 := by
  rw [fatGet] at entry ⊢
  split at entry
  · exact absurd rfl entry
  next mounted =>
  split at entry
  · exact absurd rfl entry
  next inside =>
  split at entry
  · exact absurd rfl entry
  next on_volume =>
  rw [if_neg mounted, if_neg inside, if_neg on_volume]
  rw [ataReadSector] at entry ⊢
  cases outcome : drive.outcome drive.transfers with
  | done => rfl
  | failed =>
      rw [outcome] at entry
      exact absurd rfl entry
  | late =>
      rw [outcome] at entry
      exact absurd rfl entry

theorem storesFree_succ (remaining cluster : Nat) :
    StoresFree volume drive (remaining + 1) cluster ↔
      if drive.outcome drive.transfers = .done ∧ entryIn volume drive.shown cluster = 0 then
        drive.outcome (drive.transfers + 1) = .done ∧
          drive.outcome (drive.transfers + 2) ≠ .failed
      else StoresFree volume drive.tick remaining (cluster + 1) := by
  split
  next here =>
    constructor
    · rintro ⟨k, -, before, -, read, written⟩
      cases k with
      | zero => exact ⟨read, written⟩
      | succ k => exact absurd here (before 0 (Nat.succ_pos k))
    · rintro ⟨read, written⟩
      exact ⟨0, Nat.succ_pos _, nofun, here, read, written⟩
  next elsewhere =>
    have later : ∀ j, (drive.tick.outcome (drive.tick.transfers + j) = .done ∧
          entryIn volume drive.tick.shown (cluster + 1 + j) = 0) ↔
        drive.outcome (drive.transfers + (j + 1)) = .done ∧
          entryIn volume drive.shown (cluster + (j + 1)) = 0 := by
      intro j
      rw [drive.tick_transfers, Nat.add_right_comm cluster]
      rfl
    have stores : ∀ k, (drive.tick.outcome (drive.tick.transfers + k + 1) = .done ∧
          drive.tick.outcome (drive.tick.transfers + k + 2) ≠ .failed) ↔
        drive.outcome (drive.transfers + (k + 1) + 1) = .done ∧
          drive.outcome (drive.transfers + (k + 1) + 2) ≠ .failed := by
      intro k
      rw [drive.tick_transfers]
      rfl
    constructor
    · rintro ⟨k, below, before, found, stored⟩
      cases k with
      | zero => exact absurd found elsewhere
      | succ k =>
          refine ⟨k, Nat.lt_of_succ_lt_succ below, ?_, (later k).mpr found,
            (stores k).mpr stored⟩
          intro j inside hit
          exact before (j + 1) (Nat.succ_lt_succ inside) ((later j).mp hit)
    · rintro ⟨k, below, before, found, stored⟩
      refine ⟨k + 1, Nat.succ_lt_succ below, ?_, (later k).mp found, (stores k).mp stored⟩
      intro j inside
      cases j with
      | zero => exact elsewhere
      | succ j =>
          intro hit
          exact before j (Nat.lt_of_succ_lt_succ inside) ((later j).mpr hit)

theorem findFreeCluster_stores (geometry : Geometry volume) (apart : Apart volume sectors)
    {remaining : Nat} (first : 2 ≤ cluster)
    (inside : cluster + remaining ≤ volume.totalClusters + 2) :
    (¬StoresFree volume drive remaining cluster →
      (findFreeCluster volume remaining cluster drive).1 = none ∧
        (findFreeCluster volume remaining cluster drive).2.sectors = drive.sectors) ∧
    (StoresFree volume drive remaining cluster →
      ∃ free, clusterValid volume free = true ∧ entryIn volume drive.shown free = 0 ∧
        TableChange volume sectors free endOfChain drive.shown
          (findFreeCluster volume remaining cluster drive).2.shown ∧
        ∀ found ∈ (findFreeCluster volume remaining cluster drive).1, found = free) := by
  induction remaining generalizing cluster drive with
  | zero =>
      constructor
      · exact fun _ => ⟨rfl, rfl⟩
      · rintro ⟨k, below, -⟩
        cases below
  | succ remaining ih =>
  have valid : clusterValid volume cluster = true := by
    simp only [clusterValid, Bool.and_eq_true, decide_eq_true_eq]
    omega
  rw [storesFree_succ, findFreeCluster, fatGet_eq geometry valid]
  by_cases here : drive.outcome drive.transfers = .done ∧
      entryIn volume drive.shown cluster = 0
  · rw [if_pos here, if_pos here.1, here.2]
    dsimp only
    have stored := @fatSet_effect volume sectors drive.tick cluster endOfChain geometry apart
      valid (.inr (.inl (by decide))) (by decide)
    have condition : drive.tick.Stores ↔ drive.outcome (drive.transfers + 1) = .done ∧
      drive.outcome (drive.transfers + 2) ≠ .failed := Iff.rfl
    rw [condition] at stored
    generalize fatSet volume drive.tick cluster endOfChain = result at stored ⊢
    obtain ⟨ok, drive'⟩ := result
    constructor
    · intro no_store
      obtain ⟨failed, same⟩ := stored.2 no_store
      cases failed
      exact ⟨rfl, same⟩
    · intro stores
      refine ⟨cluster, valid, here.2, ?_⟩
      cases ok with
      | false => exact ⟨stored.1 stores, fun found none => absurd none (Option.not_mem_none found)⟩
      | true =>
          refine ⟨stored.1 stores, ?_⟩
          intro found same
          exact (Option.some.inj same).symm
  · rw [if_neg here]
    have nonzero : ∃ entry, (if drive.outcome drive.transfers = .done then
        entryIn volume drive.shown cluster else endOfChain) = entry + 1 := by
      apply Nat.exists_eq_add_one_of_ne_zero
      split
      next done => exact fun zero => here ⟨done, zero⟩
      next => decide
    obtain ⟨entry, nonzero⟩ := nonzero
    rw [nonzero]
    exact ih (by omega) (by omega)

/-- An allocation takes a free cluster if it stores an entry, and otherwise it fails and
changes nothing. -/
theorem fatAllocCluster_stores (geometry : Geometry volume) (apart : Apart volume sectors)
    (drive : Drive) :
    (¬AllocationStores volume drive → (fatAllocCluster volume drive).1 = none ∧
      (fatAllocCluster volume drive).2.sectors = drive.sectors) ∧
    (AllocationStores volume drive →
      ∃ free, clusterValid volume free = true ∧ entryIn volume drive.shown free = 0 ∧
        TableChange volume sectors free endOfChain drive.shown
          (fatAllocCluster volume drive).2.shown ∧
        ∀ found ∈ (fatAllocCluster volume drive).1, found = free) :=
  findFreeCluster_stores geometry apart le_rfl (Nat.le_of_eq (Nat.add_comm _ _))

end Allocation

/-! ## Extension -/

section Extension

variable {volume : Volume} {sectors : Set Nat} {drive : Drive} {cluster value : Nat}

/-- Linking a cluster frees none. -/
theorem fatSet_keeps (geometry : Geometry volume) (apart : Apart volume sectors)
    (proper : 0x0FFFFFF8 ≤ value ∨ clusterValid volume value = true) (small : value < 2 ^ 28)
    (nonzero : value ≠ 0) :
    Keeps volume drive.shown (fatSet volume drive cluster value).2.shown := by
  by_cases valid : clusterValid volume cluster = true
  · have effect := @fatSet_effect volume sectors drive cluster value geometry apart valid
      (.inr proper) small
    by_cases stores : drive.Stores
    · exact (effect.1 stores).keeps nonzero
    · rw [Drive.shown_congr (effect.2 stores).2]
      exact .refl _
  · have : (fatSet volume drive cluster value).2 = drive := by
      rw [fatSet]
      dsimp only
      rw [if_pos (by simp [valid])]
    rw [this]
    exact .refl _

theorem fatAllocCluster_keeps (geometry : Geometry volume) (apart : Apart volume sectors)
    (drive : Drive) :
    Keeps volume drive.shown (fatAllocCluster volume drive).2.shown ∧
      ∀ found ∈ (fatAllocCluster volume drive).1, clusterValid volume found = true := by
  rcases fatAllocCluster_effect geometry apart drive with
    ⟨none, same⟩ | ⟨free, valid, -, change, found⟩
  · rw [none, Drive.shown_congr same]
    exact ⟨.refl _, nofun⟩
  · refine ⟨change.keeps (by decide), ?_⟩
    intro other member
    rw [found other member]
    exact valid

theorem appendClusters_keeps (geometry : Geometry volume) (apart : Apart volume sectors)
    (count previous : Nat) (drive : Drive) :
    Keeps volume drive.shown (appendClusters volume count previous drive).2.shown := by
  induction count generalizing previous drive with
  | zero => exact .refl _
  | succ count ih =>
  rw [appendClusters]
  have allocated := fatAllocCluster_keeps geometry apart drive
  generalize fatAllocCluster volume drive = result at allocated ⊢
  obtain ⟨found, drive'⟩ := result
  cases found with
  | none => exact allocated.1
  | some next =>
  have valid := allocated.2 next rfl
  have bounds := bounds_of_clusterValid valid
  have clusters := geometry.clusters
  dsimp only
  have linked := @fatSet_keeps volume sectors drive' previous next geometry apart
    (.inr valid) (by omega) (by omega)
  generalize fatSet volume drive' previous next = result at linked ⊢
  obtain ⟨ok, drive''⟩ := result
  cases ok with
  | false => exact allocated.1.trans linked
  | true => exact (allocated.1.trans linked).trans (ih next drive'')

theorem appendClusters_stores (geometry : Geometry volume) (apart : Apart volume sectors)
    {count : Nat} (some : 0 < count) (previous : Nat) (drive : Drive) :
    (¬AllocationStores volume drive →
      (appendClusters volume count previous drive).1 = false ∧
        (appendClusters volume count previous drive).2.sectors = drive.sectors) ∧
    (AllocationStores volume drive →
      Taken volume drive.shown (appendClusters volume count previous drive).2.shown) := by
  obtain ⟨count, rfl⟩ := Nat.exists_eq_add_one_of_ne_zero (Nat.ne_of_gt some)
  have stores := fatAllocCluster_stores geometry apart drive
  have allocated := fatAllocCluster_keeps geometry apart drive
  rw [appendClusters]
  generalize fatAllocCluster volume drive = result at stores allocated ⊢
  obtain ⟨found, drive'⟩ := result
  constructor
  · intro no_store
    obtain ⟨none, same⟩ := stores.1 no_store
    cases none
    exact ⟨rfl, same⟩
  intro does_store
  obtain ⟨free, valid, is_free, change, -⟩ := stores.2 does_store
  have taken := change.taken valid (by decide) is_free
  cases found with
  | none => exact taken
  | some next =>
  have valid := allocated.2 next rfl
  have bounds := bounds_of_clusterValid valid
  have clusters := geometry.clusters
  dsimp only
  have linked := @fatSet_keeps volume sectors drive' previous next geometry apart
    (.inr valid) (by omega) (by omega)
  generalize fatSet volume drive' previous next = result at linked ⊢
  obtain ⟨ok, drive''⟩ := result
  cases ok with
  | false => exact taken.keeps linked
  | true =>
      exact (taken.keeps linked).keeps (appendClusters_keeps geometry apart _ _ _)

theorem lastCluster_sectors {count : Nat} :
    (lastCluster volume count cluster drive).2.sectors = drive.sectors := by
  induction count generalizing cluster drive with
  | zero => rfl
  | succ count ih =>
  rw [lastCluster]
  have read := (@fatGet_effect volume drive cluster).1
  dsimp only
  split
  · exact read
  · exact ih.trans read

/-- The drive with which `fs_extend` allocates a first cluster, if it comes to that. -/
def firstAllocation (volume : Volume) (file : File) (neededBytes : Nat) (drive : Drive) :
    Option Drive :=
  let size := clusterSize volume
  if size = 0 ∨ 0xFFFFFFFF - file.pos < neededBytes then none
  else
    let currentClusters := (file.size + size - 1) / size
    let targetClusters := (file.pos + neededBytes + size - 1) / size
    if volume.totalClusters < targetClusters then none
    else if currentClusters = 0 then
      if clusterValid volume file.cluster ∧ targetClusters - 1 = 0 then none else some drive
    else if !clusterValid volume file.cluster then none
    else
      match lastCluster volume (currentClusters - 1) file.cluster drive with
      | (none, _) => none
      | (some _, drive) => if targetClusters - currentClusters = 0 then none else some drive

/-- An extension that does not come to an allocation changes nothing.  Otherwise the first
allocation decides: if it stores an entry a cluster is taken. -/
theorem fsExtend_effect (geometry : Geometry volume) (apart : Apart volume sectors)
    (file : File) (neededBytes : Nat) (drive : Drive) :
    (firstAllocation volume file neededBytes drive = none →
      (fsExtend volume file neededBytes drive).2.1 = file ∧
        (fsExtend volume file neededBytes drive).2.2.sectors = drive.sectors) ∧
    ∀ drive' ∈ firstAllocation volume file neededBytes drive,
      (¬AllocationStores volume drive' →
        (fsExtend volume file neededBytes drive).1 = false ∧
          (fsExtend volume file neededBytes drive).2.2.sectors = drive.sectors) ∧
      (AllocationStores volume drive' →
        Taken volume drive.shown (fsExtend volume file neededBytes drive).2.2.shown) := by
  rw [firstAllocation, fsExtend]
  dsimp only
  split
  · exact ⟨fun _ => ⟨rfl, rfl⟩, nofun⟩
  split
  · exact ⟨fun _ => ⟨rfl, rfl⟩, nofun⟩
  generalize (file.size + clusterSize volume - 1) / clusterSize volume = current
  generalize (file.pos + neededBytes + clusterSize volume - 1) / clusterSize volume = target
  split
  · rw [firstCluster]
    by_cases valid : clusterValid volume file.cluster = true
    · rw [if_pos valid]
      dsimp only
      split
      next nothing =>
        rw [nothing.2]
        exact ⟨fun _ => ⟨rfl, rfl⟩, nofun⟩
      next more =>
        refine ⟨nofun, ?_⟩
        rintro _ ⟨⟩
        exact appendClusters_stores geometry apart
          (Nat.pos_of_ne_zero fun zero => more ⟨valid, zero⟩) file.cluster drive
    rw [if_neg fun both => valid both.1, if_neg valid]
    refine ⟨nofun, ?_⟩
    rintro _ ⟨⟩
    have stores := fatAllocCluster_stores geometry apart drive
    generalize fatAllocCluster volume drive = result at stores ⊢
    obtain ⟨found, drive'⟩ := result
    constructor
    · intro no_store
      obtain ⟨none, same⟩ := stores.1 no_store
      cases none
      exact ⟨rfl, same⟩
    · intro does_store
      obtain ⟨free, valid, is_free, change, -⟩ := stores.2 does_store
      have taken := change.taken valid (by decide) is_free
      cases found with
      | none => exact taken
      | some first => exact taken.keeps (appendClusters_keeps geometry apart _ _ _)
  split
  · exact ⟨fun _ => ⟨rfl, rfl⟩, nofun⟩
  have walked := @lastCluster_sectors volume drive file.cluster (current - 1)
  generalize lastCluster volume (current - 1) file.cluster drive = result at walked ⊢
  obtain ⟨last, drive'⟩ := result
  cases last with
  | none => exact ⟨fun _ => ⟨rfl, walked⟩, nofun⟩
  | some previous =>
  dsimp only
  split
  next nothing =>
    rw [nothing]
    exact ⟨fun _ => ⟨rfl, walked⟩, nofun⟩
  next more =>
    refine ⟨nofun, ?_⟩
    rintro _ ⟨⟩
    rw [← walked, ← Drive.shown_congr walked]
    exact appendClusters_stores geometry apart (Nat.pos_of_ne_zero more) previous drive'

end Extension

section Writing

variable {volume : Volume} {drive : Drive} {cluster first : Nat} {base : Nat → ByteMemory}

theorem sectorBefore_sectors (drive : Drive) (sector offset : Nat) :
    (sectorBefore drive sector offset).2.sectors = drive.sectors := by
  rw [sectorBefore]
  split
  · rfl
  · exact ataReadSector_sectors drive sector

theorem ataWriteSector_shown (drive : Drive) (lba : Nat) (buffer : ByteMemory) (other : Nat)
    (different : lba28 other ≠ lba28 lba) :
    (ataWriteSector drive lba buffer).2.shown other = drive.shown other := by
  rw [ataWriteSector]
  dsimp only
  split
  · exact Function.update_of_ne different ..
  · rfl
  · exact Function.update_of_ne different ..

/-- Storing a sector of the file is a change of the file. -/
theorem OwnChange.write (apart : Set.InjOn lba28 {sector | Transferred volume sector})
    (change : OwnChange volume first base drive.shown)
    (reached : Relation.ReflTransGen (fun a b => entryIn volume base a = b) first cluster)
    (valid : clusterValid volume cluster = true) {s : Nat} (below : s < volume.sectorsPerCluster)
    (buffer : ByteMemory) :
    OwnChange volume first base
      (ataWriteSector drive (clusterToSector volume cluster + s) buffer).2.shown := by
  intro sector inside foreign
  rw [ataWriteSector_shown, change sector inside foreign]
  intro same
  have := apart inside (Transferred.data valid below) same
  exact foreign ⟨cluster, s, reached, valid, below, this⟩

theorem writeLoop_failed (geometry : Geometry volume)
    (apart : Set.InjOn lba28 {sector | Transferred volume sector}) {bytes : List UInt8}
    {fuel offset written : Nat} {file : File}
    (change : OwnChange volume first base drive.shown)
    (reached : Relation.ReflTransGen (fun a b => entryIn volume base a = b) first cluster)
    (failed : (writeLoop volume bytes fuel cluster offset written file drive).1 = none) :
    OwnChange volume first base
      (writeLoop volume bytes fuel cluster offset written file drive).2.2.shown := by
  induction fuel generalizing drive cluster offset written file with
  | zero => cases failed
  | succ fuel ih =>
  rw [writeLoop] at failed ⊢
  split at failed
  · cases failed
  next more =>
  rw [if_neg more]
  dsimp only at failed ⊢
  split at failed
  next stop =>
    rw [if_pos stop]
    exact change
  next proper =>
  rw [if_neg proper]
  split at failed
  next stop =>
    rw [if_pos stop]
    exact change
  next on_volume =>
  rw [if_neg on_volume]
  simp only [not_or, Bool.not_eq_true', Bool.not_eq_false, not_le] at proper
  obtain ⟨valid, below⟩ := proper
  rw [geometry.sector_eq valid below] at failed ⊢
  have read := sectorBefore_sectors drive
    (clusterToSector volume cluster + offset / sectorSize) offset
  generalize sectorBefore drive (clusterToSector volume cluster + offset / sectorSize) offset =
    result at failed read ⊢
  obtain ⟨buffer, drive₁⟩ := result
  rw [← Drive.shown_congr read] at change
  cases buffer with
  | none => exact change
  | some buffer =>
  dsimp only at failed ⊢
  have stored := change.write apart reached valid below (buffer.storeBytes
    (offset % sectorSize) ((bytes.drop written).take
      (min (bytes.length - written) (sectorSize - offset % sectorSize))))
  generalize ataWriteSector drive₁ (clusterToSector volume cluster + offset / sectorSize)
    (buffer.storeBytes (offset % sectorSize) ((bytes.drop written).take
      (min (bytes.length - written) (sectorSize - offset % sectorSize)))) =
    result at failed stored ⊢
  obtain ⟨ok, drive₂⟩ := result
  cases ok with
  | false => exact stored
  | true =>
  dsimp only at failed ⊢
  split at failed
  next boundary =>
    rw [if_pos boundary]
    split at failed
    next unfinished =>
      rw [if_pos unfinished]
      have entry := @fatGet_entry volume drive₂ cluster
      have same := (@fatGet_effect volume drive₂ cluster).1
      generalize fatGet volume drive₂ cluster = result at failed entry same ⊢
      obtain ⟨next, drive₃⟩ := result
      rw [← Drive.shown_congr same] at stored
      dsimp only at failed ⊢
      split at failed
      next broken =>
        rw [if_pos broken]
        exact stored
      next linked =>
        rw [if_neg linked]
        have next_valid : clusterValid volume next = true := by simpa using linked
        have not_end : next ≠ endOfChain := by
          rintro rfl
          rw [geometry.endOfChain_invalid] at next_valid
          cases next_valid
        have link := entry not_end
        rw [← Drive.shown_congr same, stored.entries geometry valid] at link
        exact ih stored (reached.tail link) failed
    next finished =>
      rw [if_neg finished]
      exact ih stored reached failed
  next inside =>
    rw [if_neg inside]
    exact ih stored reached failed

theorem skipWrite_effect {count : Nat} :
    (skipWrite volume count cluster drive).2.sectors = drive.sectors ∧
      ∀ found ∈ (skipWrite volume count cluster drive).1,
        Relation.ReflTransGen (fun a b => entryIn volume drive.shown a = b) cluster found := by
  induction count generalizing cluster drive with
  | zero =>
      refine ⟨rfl, ?_⟩
      rintro _ ⟨⟩
      exact .refl
  | succ count ih =>
  rw [skipWrite]
  have entry := @fatGet_entry volume drive cluster
  have same := (@fatGet_effect volume drive cluster).1
  generalize fatGet volume drive cluster = result at entry same ⊢
  obtain ⟨next, drive'⟩ := result
  dsimp only
  split
  · exact ⟨same, nofun⟩
  next proper =>
    obtain ⟨kept, found⟩ := @ih drive' next
    refine ⟨kept.trans same, ?_⟩
    intro last member
    have link := entry (by
      rintro rfl
      exact proper (.inr (by decide)))
    have onward := found last member
    rw [Drive.shown_congr same] at onward
    exact .head link onward

end Writing

end Charis.Fs
