import Charis.Fs.Directory

/-!
# Changes of the allocation table

An entry is changed in both tables, one after the other, and each of the transfers can fail.
What counts for the chains is the first table.  Its entries change if its sector is stored, and
no other sectors change than those of the tables.
-/

namespace Charis.Fs

open Charis.Lib

/-- A sector of an allocation table. -/
inductive TableSector (volume : Volume) : Nat → Prop
  | table {cluster : Nat} : clusterValid volume cluster = true →
      TableSector volume (fatSector volume cluster)
  | mirror {cluster : Nat} : clusterValid volume cluster = true → 2 ≤ volume.numFats →
      TableSector volume (fatSector volume cluster + volume.fatSize32)

/-- Sectors, those of the tables among them, that the drive tells from each other. -/
structure Apart (volume : Volume) (sectors : Set Nat) : Prop where
  injective : Set.InjOn lba28 sectors
  tables : ∀ sector, TableSector volume sector → sector ∈ sectors

/-- The entry of a cluster in what the drive shows. -/
def entryIn (volume : Volume) (disk : Nat → ByteMemory) (cluster : Nat) : Nat :=
  (disk (fatSector volume cluster)).readLE (entryOffset cluster % sectorSize) 4 % 2 ^ 28

/-- The first table has another entry for a cluster, and among some sectors only those of the
tables have changed. -/
structure TableChange (volume : Volume) (sectors : Set Nat) (cluster value : Nat)
    (before after : Nat → ByteMemory) : Prop where
  entries : ∀ other, clusterValid volume other = true →
    entryIn volume after other = if other = cluster then value else entryIn volume before other
  elsewhere : ∀ sector ∈ sectors, ¬TableSector volume sector → after sector = before sector

/-- The first table and the sectors that belong to no table are the same. -/
structure TableSame (volume : Volume) (sectors : Set Nat) (before after : Nat → ByteMemory) :
    Prop where
  entries : ∀ other, clusterValid volume other = true →
    entryIn volume after other = entryIn volume before other
  elsewhere : ∀ sector ∈ sectors, ¬TableSector volume sector → after sector = before sector

section Changes

variable {volume : Volume} {sectors : Set Nat} {drive : Drive} {cluster value : Nat}
  {before after last : Nat → ByteMemory}

theorem TableSame.refl (disk : Nat → ByteMemory) : TableSame volume sectors disk disk :=
  ⟨fun _ _ => rfl, fun _ _ _ => rfl⟩

theorem TableChange.same (first : TableChange volume sectors cluster value before after)
    (second : TableSame volume sectors after last) :
    TableChange volume sectors cluster value before last where
  entries other valid := (second.entries other valid).trans (first.entries other valid)
  elsewhere sector inside outside :=
    (second.elsewhere sector inside outside).trans (first.elsewhere sector inside outside)

/-- The sector of a transfer is read, and what is stored afterwards reaches the disk. -/
def Drive.Stores (drive : Drive) : Prop :=
  drive.outcome drive.transfers = .done ∧ drive.outcome (drive.transfers + 1) ≠ .failed

/-- A sector is changed on the disk if the transfers store it. -/
theorem patchSector_shown (drive : Drive) (sector offset width value other : Nat) :
    (drive.Stores → (patchSector drive sector offset width value).2.shown other =
      if lba28 other = lba28 sector then
        (drive.shown sector).writeLE offset width value
      else drive.shown other) ∧
    (¬drive.Stores → (patchSector drive sector offset width value).1 = false ∧
      (patchSector drive sector offset width value).2.sectors = drive.sectors) := by
  rw [patchSector, ataReadSector]
  cases reading : drive.outcome drive.transfers with
  | failed =>
      constructor
      · intro stores
        rw [Drive.Stores, reading] at stores
        cases stores.1
      · exact fun _ => ⟨rfl, rfl⟩
  | late =>
      constructor
      · intro stores
        rw [Drive.Stores, reading] at stores
        cases stores.1
      · exact fun _ => ⟨rfl, rfl⟩
  | done =>
  dsimp only
  rw [ataWriteSector]
  dsimp only
  cases writing : drive.outcome (drive.transfers + 1) with
  | failed =>
      constructor
      · intro stores
        exact absurd writing stores.2
      · exact fun _ => ⟨rfl, rfl⟩
  | done =>
      constructor
      · intro _
        simp only [Drive.shown, Function.update_apply]
      · intro no_store
        exact absurd ⟨reading, by rw [writing]; decide⟩ no_store
  | late =>
      constructor
      · intro _
        simp only [Drive.shown, Function.update_apply]
      · intro no_store
        exact absurd ⟨reading, by rw [writing]; decide⟩ no_store

theorem tableChange_of_patch (geometry : Geometry volume) (apart : Apart volume sectors)
    (valid : clusterValid volume cluster = true) (small : value < 2 ^ 28)
    (patched : ∀ other, after other =
      if lba28 other = lba28 (fatSector volume cluster) then
        (before (fatSector volume cluster)).writeLE (entryOffset cluster % sectorSize) 4 value
      else before other) :
    TableChange volume sectors cluster value before after := by
  constructor
  · intro other valid'
    have inside := apart.tables _ (.table valid)
    have inside' := apart.tables _ (.table valid')
    rw [entryIn, entryIn, patched]
    by_cases row : fatSector volume other = fatSector volume cluster
    · rw [row, if_pos rfl]
      split
      next same =>
        rw [same, ByteMemory.readLE_writeLE_self]
        omega
      next different =>
        rw [ByteMemory.readLE_writeLE_of_apart]
        obtain ⟨offset, place, -⟩ := geometry.fatSector_eq valid
        obtain ⟨offset', place', -⟩ := geometry.fatSector_eq valid'
        rw [place, place'] at row
        rw [offset, offset']
        simp only [sectorSize]
        omega
    · have different : other ≠ cluster := by
        rintro rfl
        exact row rfl
      rw [if_neg fun same => row (apart.injective inside' inside same), if_neg different]
  · intro sector inside outside
    have : ¬lba28 sector = lba28 (fatSector volume cluster) := by
      intro same
      have := apart.injective inside (apart.tables _ (.table valid)) same
      exact outside (this ▸ .table valid)
    rw [patched, if_neg this]

theorem tableSame_of_patch (geometry : Geometry volume) (apart : Apart volume sectors)
    (valid : clusterValid volume cluster = true) (two : 2 ≤ volume.numFats)
    {buffer : ByteMemory}
    (patched : ∀ other, after other =
      if lba28 other = lba28 (fatSector volume cluster + volume.fatSize32) then buffer
      else before other) :
    TableSame volume sectors before after := by
  have inside := apart.tables _ (.mirror valid two)
  have untouched : ∀ sector ∈ sectors, sector ≠ fatSector volume cluster + volume.fatSize32 →
      after sector = before sector := by
    intro sector member different
    rw [patched, if_neg fun same => different (apart.injective member inside same)]
  constructor
  · intro other valid'
    have different : fatSector volume other ≠ fatSector volume cluster + volume.fatSize32 := by
      have first := (geometry.fatSector_eq valid').2
      have second := (geometry.fatSector_eq valid).2
      omega
    rw [entryIn, entryIn, untouched _ (apart.tables _ (.table valid')) different]
  · intro sector member outside
    apply untouched sector member
    rintro rfl
    exact outside (.mirror valid two)

/-- `fat_set` changes the entry exactly if its first two transfers store it. -/
theorem fatSet_effect (geometry : Geometry volume) (apart : Apart volume sectors)
    (valid : clusterValid volume cluster = true)
    (proper : value = 0 ∨ 0x0FFFFFF8 ≤ value ∨ clusterValid volume value = true)
    (small : value < 2 ^ 28) :
    (drive.Stores → TableChange volume sectors cluster value drive.shown
      (fatSet volume drive cluster value).2.shown) ∧
    (¬drive.Stores → (fatSet volume drive cluster value).1 = false ∧
      (fatSet volume drive cluster value).2.sectors = drive.sectors) := by
  obtain ⟨offset, place, row⟩ := geometry.fatSector_eq valid
  have tables := geometry.tables
  have copies := geometry.copies
  have inside := geometry.inside
  have in_table : ¬volume.fatSize32 ≤ entryOffset cluster / sectorSize :=
    not_le.mpr (geometry.lba28_fatSector valid).1
  have on_volume : ¬volume.totalSectors32 ≤ fatSector volume cluster := by
    have : volume.fatSize32 ≤ volume.numFats * volume.fatSize32 :=
      Nat.le_mul_of_pos_left _ copies
    omega
  have reduced : value % 2 ^ 28 = value := Nat.mod_eq_of_lt small
  have mounted : ¬(!volume.mounted || !clusterValid volume cluster) = true := by
    simp [geometry.mounted, valid]
  have accepted : ¬(value ≠ 0 ∧ value < 0x0FFFFFF8 ∧ (!clusterValid volume value) = true) := by
    rintro ⟨nonzero, below, invalid⟩
    rcases proper with zero | large | good
    · exact nonzero zero
    · omega
    · simp [good] at invalid
  rw [fatSet]
  dsimp only
  rw [reduced, if_neg mounted, if_neg accepted, if_neg in_table, if_neg on_volume]
  have first := patchSector_shown drive (fatSector volume cluster)
    (entryOffset cluster % sectorSize) 4 value
  generalize patchSector drive (fatSector volume cluster) (entryOffset cluster % sectorSize) 4
    value = result at first ⊢
  obtain ⟨ok, drive'⟩ := result
  have changed : drive.Stores →
      TableChange volume sectors cluster value drive.shown drive'.shown :=
    fun stores => tableChange_of_patch geometry apart valid small
      fun other => (first other).1 stores
  cases ok with
  | false => exact ⟨changed, (first 0).2⟩
  | true =>
  have stores : drive.Stores := by
    by_contra no_store
    cases ((first 0).2 no_store).1
  constructor
  · intro _
    dsimp only
    split
    next two =>
      split
      · exact changed stores
      · have second := patchSector_shown drive'
          (fatSector volume cluster + volume.fatSize32)
          (entryOffset cluster % sectorSize) 4 value
        apply (changed stores).same
        by_cases stores' : drive'.Stores
        · exact tableSame_of_patch geometry apart valid two
            fun other => (second other).1 stores'
        · rw [Drive.shown_congr ((second 0).2 stores').2]
          exact .refl _
    next => exact changed stores
  · intro no_store
    exact absurd stores no_store

end Changes

/-- A later state of the drive: its transfers come to what they would have come to. -/
structure Later (drive drive' : Drive) : Prop where
  outcome : drive'.outcome = drive.outcome
  transfers : drive.transfers ≤ drive'.transfers

namespace Later

variable {volume : Volume} {drive drive' drive'' : Drive}

theorem refl (drive : Drive) : Later drive drive := ⟨rfl, le_rfl⟩

theorem trans (left : Later drive drive') (right : Later drive' drive'') : Later drive drive'' :=
  ⟨right.outcome.trans left.outcome, left.transfers.trans right.transfers⟩

theorem ready (later : Later drive drive') (ready : drive.Ready) : drive'.Ready := by
  intro transfer after
  rw [later.outcome]
  exact ready transfer (later.transfers.trans after)

theorem read (drive : Drive) (lba : Nat) : Later drive (ataReadSector drive lba).2 := by
  rw [ataReadSector]
  split
  · exact ⟨rfl, Nat.le_succ _⟩
  · exact ⟨rfl, Nat.le_succ _⟩
  · exact ⟨rfl, Nat.le_succ _⟩

theorem write (drive : Drive) (lba : Nat) (buffer : ByteMemory) :
    Later drive (ataWriteSector drive lba buffer).2 := by
  rw [ataWriteSector]
  dsimp only
  split
  · exact ⟨rfl, Nat.le_succ _⟩
  · exact ⟨rfl, Nat.le_succ _⟩
  · exact ⟨rfl, Nat.le_succ _⟩

theorem patch (drive : Drive) (sector offset width value : Nat) :
    Later drive (patchSector drive sector offset width value).2 := by
  rw [patchSector]
  have reads := read drive sector
  generalize ataReadSector drive sector = result at reads ⊢
  obtain ⟨buffer, drive'⟩ := result
  cases buffer with
  | none => exact reads
  | some buffer => exact reads.trans (write drive' sector _)

theorem get (drive : Drive) (cluster : Nat) : Later drive (fatGet volume drive cluster).2 := by
  rw [fatGet]
  split
  · exact refl drive
  split
  · exact refl drive
  split
  · exact refl drive
  have reads := read drive (fatSector volume cluster)
  generalize ataReadSector drive (fatSector volume cluster) = result at reads ⊢
  obtain ⟨buffer, drive'⟩ := result
  cases buffer with
  | none => exact reads
  | some buffer => exact reads

theorem set (drive : Drive) (cluster value : Nat) :
    Later drive (fatSet volume drive cluster value).2 := by
  rw [fatSet]
  dsimp only
  split
  · exact refl drive
  split
  · exact refl drive
  split
  · exact refl drive
  split
  · exact refl drive
  have first := patch drive (fatSector volume cluster) (entryOffset cluster % sectorSize) 4
    (value % 2 ^ 28)
  generalize patchSector drive (fatSector volume cluster) (entryOffset cluster % sectorSize) 4
    (value % 2 ^ 28) = result at first ⊢
  obtain ⟨ok, drive'⟩ := result
  cases ok with
  | false => exact first
  | true =>
  dsimp only
  split
  · split
    · exact first
    · exact first.trans (patch drive' _ _ _ _)
  · exact first

theorem findFree (drive : Drive) (remaining cluster : Nat) :
    Later drive (findFreeCluster volume remaining cluster drive).2 := by
  induction remaining generalizing cluster drive with
  | zero => exact refl drive
  | succ remaining ih =>
  rw [findFreeCluster]
  have read := @get volume drive cluster
  generalize fatGet volume drive cluster = result at read ⊢
  obtain ⟨entry, drive'⟩ := result
  cases entry with
  | succ entry => exact read.trans (ih drive' (cluster + 1))
  | zero =>
  dsimp only
  have stored := @set volume drive' cluster endOfChain
  generalize fatSet volume drive' cluster endOfChain = result at stored ⊢
  obtain ⟨ok, drive''⟩ := result
  cases ok with
  | false => exact read.trans stored
  | true => exact read.trans stored

end Later

section Allocation

variable {volume : Volume} {sectors : Set Nat} {drive : Drive} {cluster : Nat}

/-- Reading an entry changes nothing, and an entry that is read as free is free. -/
theorem fatGet_effect (drive : Drive) (cluster : Nat) :
    (fatGet volume drive cluster).2.sectors = drive.sectors ∧
      ((fatGet volume drive cluster).1 = 0 →
        clusterValid volume cluster = true ∧ entryIn volume drive.shown cluster = 0) := by
  have nonzero : endOfChain ≠ 0 := by decide
  rw [fatGet]
  split
  · exact ⟨rfl, fun zero => absurd zero nonzero⟩
  next proper =>
  split
  · exact ⟨rfl, fun zero => absurd zero nonzero⟩
  split
  · exact ⟨rfl, fun zero => absurd zero nonzero⟩
  rw [ataReadSector]
  have valid : clusterValid volume cluster = true := by
    simp only [Bool.or_eq_true, Bool.not_eq_true', not_or, Bool.not_eq_false] at proper
    exact proper.2
  cases drive.outcome drive.transfers with
  | done => exact ⟨rfl, fun zero => ⟨valid, zero⟩⟩
  | failed => exact ⟨rfl, fun zero => absurd zero nonzero⟩
  | late => exact ⟨rfl, fun zero => absurd zero nonzero⟩

theorem findFreeCluster_effect (geometry : Geometry volume) (apart : Apart volume sectors)
    {remaining : Nat} :
    (findFreeCluster volume remaining cluster drive).1 = none ∧
        (findFreeCluster volume remaining cluster drive).2.sectors = drive.sectors ∨
      ∃ free, clusterValid volume free = true ∧ entryIn volume drive.shown free = 0 ∧
        TableChange volume sectors free endOfChain drive.shown
          (findFreeCluster volume remaining cluster drive).2.shown ∧
        ∀ found ∈ (findFreeCluster volume remaining cluster drive).1, found = free := by
  induction remaining generalizing cluster drive with
  | zero => exact .inl ⟨rfl, rfl⟩
  | succ remaining ih =>
  rw [findFreeCluster]
  have read := @fatGet_effect volume drive cluster
  generalize fatGet volume drive cluster = result at read ⊢
  obtain ⟨entry, drive'⟩ := result
  have shown := Drive.shown_congr read.1
  cases entry with
  | succ entry =>
      dsimp only
      rw [← read.1, ← shown]
      exact ih
  | zero =>
  obtain ⟨valid, free⟩ := read.2 rfl
  dsimp only
  have stored := @fatSet_effect volume sectors drive' cluster endOfChain geometry apart
    valid (.inr (.inl (by decide))) (by decide)
  generalize fatSet volume drive' cluster endOfChain = result at stored ⊢
  obtain ⟨ok, drive''⟩ := result
  rw [shown] at stored
  by_cases stores : drive'.Stores
  · right
    refine ⟨cluster, valid, free, ?_⟩
    cases ok with
    | false => exact ⟨stored.1 stores, nofun⟩
    | true =>
        refine ⟨stored.1 stores, ?_⟩
        intro found same
        exact (Option.some.inj same).symm
  · left
    obtain ⟨failed, same⟩ := stored.2 stores
    cases failed
    exact ⟨rfl, same.trans read.1⟩

/-- An allocation stores nothing and fails, or it takes a free cluster in the first table. -/
theorem fatAllocCluster_effect (geometry : Geometry volume) (apart : Apart volume sectors)
    (drive : Drive) :
    (fatAllocCluster volume drive).1 = none ∧
        (fatAllocCluster volume drive).2.sectors = drive.sectors ∨
      ∃ free, clusterValid volume free = true ∧ entryIn volume drive.shown free = 0 ∧
        TableChange volume sectors free endOfChain drive.shown
          (fatAllocCluster volume drive).2.shown ∧
        ∀ found ∈ (fatAllocCluster volume drive).1, found = free :=
  findFreeCluster_effect geometry apart

end Allocation

end Charis.Fs
