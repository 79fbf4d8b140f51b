import Charis.Lib.BlockWrites
import Charis.Fs.Chains

/-!
# The bytes of a file that is written

The inner loop of `fs_write` goes through the sectors of a file one after the other.  A sector
that it enters at its start is not read first, and the rest of it is filled with zeros.
-/

namespace Charis.Fs

open Charis.Lib

/-- The byte at a position of a file. -/
def byteAt (volume : Volume) (disk : Nat → ByteMemory) (clusters : List Nat) (position : Nat) :
    UInt8 :=
  match (fileSectors volume clusters)[position / sectorSize]? with
  | some sector => disk sector (position % sectorSize)
  | none => 0

section Positions

variable {volume : Volume} {disk disk' : Nat → ByteMemory} {clusters : List Nat}
  {position sector size : Nat}

theorem byteAt_eq (there : (fileSectors volume clusters)[position / sectorSize]? = some sector) :
    byteAt volume disk clusters position = disk sector (position % sectorSize) := by
  rw [byteAt, there]

/-- The contents of a file are the bytes at its positions. -/
theorem contents_eq_map (covers : size ≤ clusters.length * clusterSize volume) :
    contents volume disk clusters size = (List.range size).map (byteAt volume disk clusters) := by
  apply List.ext_getElem?
  intro position
  by_cases below : position < size
  · have inside : position / sectorSize < (fileSectors volume clusters).length := by
      rw [length_fileSectors]
      apply Nat.div_lt_of_lt_mul
      rw [Nat.mul_comm, Nat.mul_assoc]
      exact below.trans_le covers
    have there := List.getElem?_eq_getElem inside
    rw [getElem?_contents below there, List.getElem?_map, List.getElem?_range below,
      Option.map_some, byteAt_eq there]
  · rw [List.getElem?_eq_none_iff.mpr, List.getElem?_eq_none_iff.mpr]
    · rw [List.length_map, List.length_range]
      exact Nat.not_lt.mp below
    · rw [contents, List.length_take]
      omega

theorem byteAt_congr
    (same : ∀ sector ∈ fileSectors volume clusters, disk' sector = disk sector) :
    byteAt volume disk' clusters = byteAt volume disk clusters := by
  funext position
  rw [byteAt, byteAt]
  cases there : (fileSectors volume clusters)[position / sectorSize]? with
  | none => rfl
  | some sector =>
      dsimp only
      rw [same sector (List.mem_of_getElem? there)]

theorem contents_congr
    (same : ∀ sector ∈ fileSectors volume clusters, disk' sector = disk sector) (size : Nat) :
    contents volume disk' clusters size = contents volume disk clusters size := by
  have bytes : ∀ sector ∈ fileSectors volume clusters,
      sectorBytes disk' sector = sectorBytes disk sector := by
    intro sector member
    rw [sectorBytes, sectorBytes, same sector member]
  rw [contents, contents, List.flatMap_congr bytes]

/-- Only the clusters that the size needs matter. -/
theorem contents_take {count : Nat} (few : count ≤ clusters.length)
    (covers : size ≤ count * clusterSize volume) :
    contents volume disk (clusters.take count) size = contents volume disk clusters size := by
  have split : fileSectors volume clusters =
      fileSectors volume (clusters.take count) ++ fileSectors volume (clusters.drop count) := by
    rw [fileSectors, fileSectors, fileSectors, ← List.flatMap_append, List.take_append_drop]
  rw [contents, contents, split, List.flatMap_append, List.take_append_of_le_length]
  rw [length_fileBytes, List.length_take_of_le few]
  exact covers

theorem mem_fileSectors :
    sector ∈ fileSectors volume clusters ↔ ∃ cluster ∈ clusters, ∃ s < volume.sectorsPerCluster,
      clusterToSector volume cluster + s = sector := by
  simp [fileSectors, clusterSectors]

theorem cluster_unique (geometry : Geometry volume) {cluster cluster' s s' : Nat}
    (valid : clusterValid volume cluster = true) (valid' : clusterValid volume cluster' = true)
    (below : s < volume.sectorsPerCluster) (below' : s' < volume.sectorsPerCluster)
    (same : clusterToSector volume cluster + s = clusterToSector volume cluster' + s') :
    cluster = cluster' := by
  by_contra different
  rcases Nat.lt_or_gt_of_ne different with before | after
  · have apart := geometry.apart valid valid' before
    omega
  · have apart := geometry.apart valid' valid after
    omega

theorem fileSectors_nodup (geometry : Geometry volume) (nodup : clusters.Nodup)
    (valid : ∀ cluster ∈ clusters, clusterValid volume cluster = true) :
    (fileSectors volume clusters).Nodup := by
  rw [fileSectors, List.nodup_flatMap]
  constructor
  · intro cluster _
    apply List.nodup_range.map
    intro s s' same
    exact Nat.add_left_cancel same
  · apply nodup.imp_of_mem
    intro cluster other member member' different sector inside inside'
    obtain ⟨s, below, rfl⟩ := List.mem_map.mp inside
    obtain ⟨s', below', same⟩ := List.mem_map.mp inside'
    rw [List.mem_range] at below below'
    exact different
      (cluster_unique geometry (valid _ member) (valid _ member') below below' same.symm)

/-- The sectors of a file are sectors of the volume, and not of its tables. -/
theorem transferred_of_mem (valid : ∀ cluster ∈ clusters, clusterValid volume cluster = true)
    (member : sector ∈ fileSectors volume clusters) : Transferred volume sector := by
  obtain ⟨cluster, inside, s, below, rfl⟩ := mem_fileSectors.mp member
  exact .data (valid cluster inside) below

theorem not_tableSector_of_mem (geometry : Geometry volume)
    (valid : ∀ cluster ∈ clusters, clusterValid volume cluster = true)
    (member : sector ∈ fileSectors volume clusters) : ¬TableSector volume sector := by
  obtain ⟨cluster, inside, s, -, rfl⟩ := mem_fileSectors.mp member
  exact geometry.not_tableSector (valid cluster inside) s

end Positions

/-- The buffer with which the write of a sector begins. -/
def buffered (disk : Nat → ByteMemory) (sector offset : Nat) : ByteMemory :=
  if offset % sectorSize = 0 then fun _ => 0 else disk sector

/-- What a write makes of a file: its bytes are changed, and no other sector of the volume. -/
structure WriteEffect (volume : Volume) (clusters : List Nat) (start : Nat) (content : List UInt8)
    (before after : Nat → ByteMemory) : Prop where
  bytes : BlockWrite sectorSize 0 start content (byteAt volume before clusters)
    (byteAt volume after clusters)
  elsewhere : ∀ sector, Transferred volume sector → sector ∉ fileSectors volume clusters →
    after sector = before sector

section Sectors

variable {volume : Volume} {before middle after : Nat → ByteMemory} {clusters : List Nat}
  {start sector : Nat} {content rest : List UInt8}

theorem writeEffect_sector (injective : Set.InjOn lba28 {sector | Transferred volume sector})
    (nodup : (fileSectors volume clusters).Nodup)
    (inside : ∀ sector ∈ fileSectors volume clusters, Transferred volume sector)
    (there : (fileSectors volume clusters)[start / sectorSize]? = some sector)
    (some : content ≠ []) (fits : start % sectorSize + content.length ≤ sectorSize)
    (stored : ∀ other, after other =
      if lba28 other = lba28 sector then
        (buffered before sector start).storeBytes (start % sectorSize) content
      else before other) :
    WriteEffect volume clusters start content before after := by
  have length := List.length_pos_of_ne_nil some
  have member := List.mem_of_getElem? there
  have row_lt := (List.getElem?_eq_some_iff.mp there).1
  constructor
  · constructor
    · intro index below
      have row : (start + index) / sectorSize = start / sectorSize := by
        simp only [sectorSize] at fits ⊢
        omega
      have column : (start + index) % sectorSize = start % sectorSize + index := by
        simp only [sectorSize] at fits ⊢
        omega
      rw [byteAt_eq (row ▸ there), stored, if_pos rfl, column,
        ByteMemory.storeBytes_of_inside (Nat.le_add_right _ _) (Nat.add_lt_add_left below _),
        Nat.add_sub_cancel_left, List.getD_eq_getElem _ _ below]
    · rintro index ⟨behind, last, entered⟩
      have row : index / sectorSize = start / sectorSize := by
        simp only [sectorSize] at fits last ⊢
        omega
      have boundary : start % sectorSize = 0 := by
        apply entered
        rw [← row, last]
      have outside : start % sectorSize + content.length ≤ index % sectorSize := by
        simp only [sectorSize] at fits row boundary ⊢
        omega
      rw [byteAt_eq (row ▸ there), stored, if_pos rfl,
        ByteMemory.storeBytes_of_outside (.inr outside), buffered, if_pos boundary]
    intro index outside unfilled
    rw [byteAt, byteAt]
    cases here : (fileSectors volume clusters)[index / sectorSize]? with
    | none => rfl
    | some other =>
    dsimp only
    rw [stored]
    split
    next aliased =>
      have same : other = sector :=
        injective (inside other (List.mem_of_getElem? here)) (inside sector member) aliased
      have row : start / sectorSize = index / sectorSize := by
        apply (List.getElem?_inj row_lt nodup).mp
        rw [there, here, same]
      have columns : index % sectorSize < start % sectorSize ∨
          start % sectorSize + content.length ≤ index % sectorSize := by
        simp only [sectorSize] at row ⊢
        omega
      -- where the sector was not read, what is behind the content is filled up
      have read : start % sectorSize ≠ 0 := by
        intro boundary
        apply unfilled
        refine ⟨?_, ?_, fun _ => boundary⟩
        · simp only [sectorSize] at row columns boundary
          omega
        · simp only [sectorSize] at row fits ⊢
          omega
      rw [ByteMemory.storeBytes_of_outside columns, buffered, if_neg read, same]
    next => rfl
  · intro other transferred foreign
    rw [stored, if_neg]
    intro aliased
    apply foreign
    rw [injective transferred (inside sector member) aliased]
    exact member

/-- A write up to the end of a sector is continued. -/
theorem WriteEffect.append (first : WriteEffect volume clusters start content before middle)
    (boundary : (start + content.length) % sectorSize = 0) (some : content ≠ [])
    (second : WriteEffect volume clusters (start + content.length) rest middle after)
    (more : rest ≠ []) : WriteEffect volume clusters start (content ++ rest) before after where
  bytes := first.bytes.append (by decide) boundary some second.bytes more
  elsewhere := by
    intro sector transferred foreign
    exact (second.elsewhere sector transferred foreign).trans
      (first.elsewhere sector transferred foreign)

/-- A write leaves the table alone. -/
theorem WriteEffect.entries (geometry : Geometry volume)
    (effect : WriteEffect volume clusters start content before after)
    (valid : ∀ cluster ∈ clusters, clusterValid volume cluster = true) {cluster : Nat}
    (valid' : clusterValid volume cluster = true) :
    entryIn volume after cluster = entryIn volume before cluster := by
  rw [entryIn, entryIn, effect.elsewhere _ (.table valid')]
  intro member
  exact not_tableSector_of_mem geometry valid member (.table valid')

theorem WriteEffect.linked (geometry : Geometry volume)
    (effect : WriteEffect volume clusters start content before after)
    (valid : ∀ cluster ∈ clusters, clusterValid volume cluster = true)
    (linked : Linked volume before clusters) : Linked volume after clusters := by
  apply List.isChain_iff_getElem.mpr
  intro i below
  rw [effect.entries geometry valid (valid _ (List.getElem_mem _))]
  exact List.isChain_iff_getElem.mp linked i below

theorem Extended.contents_eq {file file' : File} {clusters' : List Nat} (geometry : Geometry volume)
    (extended : Extended volume {sector | Transferred volume sector} file file' clusters clusters'
      before after) (chain : FileChain volume before file clusters) :
    contents volume after clusters' file.size = contents volume before clusters file.size := by
  have size : 0 < clusterSize volume := Nat.mul_pos geometry.perCluster (by decide)
  have shared := extended.shared
  generalize counted : min clusters.length (neededClusters volume file.size) = count at shared
  have few : count ≤ clusters.length := by omega
  have covers : file.size ≤ count * clusterSize volume := by
    rw [← counted]
    rcases Nat.le_total clusters.length (neededClusters volume file.size) with fewer | more
    · rw [Nat.min_eq_left fewer]
      exact chain.covers
    · rw [Nat.min_eq_right more]
      exact le_neededClusters size file.size
  have few' : count ≤ clusters'.length := by
    have lengths := congrArg List.length shared
    rw [List.length_take, List.length_take] at lengths
    omega
  rw [← contents_take few' covers, shared, ← contents_take few covers]
  apply contents_congr
  intro sector member
  have valid : ∀ cluster ∈ clusters.take count, clusterValid volume cluster = true :=
    fun cluster inside => chain.valid cluster (List.mem_of_mem_take inside)
  exact extended.elsewhere sector (transferred_of_mem valid member)
    (not_tableSector_of_mem geometry valid member)

end Sectors

/-! ## The loop -/

/-- A file after some bytes were written at its position. -/
def File.advance (file : File) (count : Nat) : File :=
  { file with pos := file.pos + count, size := max file.size (file.pos + count) }

theorem File.advance_advance (file : File) (first second : Nat) :
    (file.advance first).advance second = file.advance (first + second) := by
  simp only [File.advance, File.mk.injEq, Nat.add_assoc, true_and, and_true]
  omega

section Loop

variable {volume : Volume} {clusters : List Nat} {drive : Drive} {file : File}
  {bytes : List UInt8} {cluster index offset written fuel : Nat}

theorem sectorBefore_eq (ready : drive.Ready) (sector offset : Nat) :
    ∃ drive', sectorBefore drive sector offset =
        (some (buffered drive.shown sector offset), drive') ∧ Quiet drive drive' := by
  rw [sectorBefore, buffered]
  split
  · exact ⟨drive, rfl, .refl ready⟩
  · exact read_of_ready ready sector

/-- How many bytes a round of the loop writes. -/
def roundLength (bytes : List UInt8) (written offset : Nat) : Nat :=
  min (bytes.length - written) (sectorSize - offset % sectorSize)

theorem sector_offset (position : file.pos = index * clusterSize volume + offset) :
    file.pos % sectorSize = offset % sectorSize := by
  rw [position, clusterSize, ← Nat.mul_assoc, Nat.mul_comm _ sectorSize, Nat.mul_add_mod]

/-- A round stays in its cluster. -/
theorem sector_end_le {count : Nat} (inside : offset < clusterSize volume)
    (full : count ≤ sectorSize - offset % sectorSize) : offset + count ≤ clusterSize volume := by
  have rows : (offset / sectorSize + 1) * sectorSize ≤ clusterSize volume := by
    apply Nat.mul_le_mul_right
    exact Nat.div_lt_of_lt_mul (by rwa [Nat.mul_comm])
  simp only [sectorSize] at rows full
  omega

theorem writeLoop_round (geometry : Geometry volume)
    (injective : Set.InjOn lba28 {sector | Transferred volume sector}) (nodup : clusters.Nodup)
    (valid : ∀ cluster ∈ clusters, clusterValid volume cluster = true) (ready : drive.Ready)
    (here : clusters[index]? = some cluster) (inside : offset < clusterSize volume)
    (position : file.pos = index * clusterSize volume + offset) (more : written < bytes.length)
    (below : file.pos + (bytes.length - written) < 2 ^ 32) :
    ∃ drive', drive'.Ready ∧
      WriteEffect volume clusters file.pos
        ((bytes.drop written).take (roundLength bytes written offset)) drive.shown drive'.shown ∧
      writeLoop volume bytes (fuel + 1) cluster offset written file drive =
        let count := roundLength bytes written offset
        if clusterSize volume ≤ offset + count then
          if written + count < bytes.length then
            if !clusterValid volume (fatGet volume drive' cluster).1 then
              (partly (written + count), file.advance count, (fatGet volume drive' cluster).2)
            else
              writeLoop volume bytes fuel (fatGet volume drive' cluster).1 0 (written + count)
                (file.advance count) (fatGet volume drive' cluster).2
          else writeLoop volume bytes fuel cluster 0 (written + count) (file.advance count) drive'
        else
          writeLoop volume bytes fuel cluster (offset + count) (written + count)
            (file.advance count) drive' := by
  have validHere := valid cluster (List.mem_of_getElem? here)
  obtain ⟨-, onVolume⟩ := geometry.clusterToSector_eq validHere
  have total := geometry.total
  have row : offset / sectorSize < volume.sectorsPerCluster :=
    Nat.div_lt_of_lt_mul (by rwa [Nat.mul_comm])
  have sector : (clusterToSector volume cluster + offset / sectorSize) % 2 ^ 32 =
      clusterToSector volume cluster + offset / sectorSize := by
    apply Nat.mod_eq_of_lt
    simp only [sectorSize] at row ⊢
    omega
  have start := sector_offset position
  have there : (fileSectors volume clusters)[file.pos / sectorSize]? =
      some (clusterToSector volume cluster + offset / sectorSize) := by
    rw [← sector_of_position here inside, position, clusterSize, ← Nat.mul_assoc,
      Nat.mul_comm _ sectorSize, Nat.mul_add_div (by decide)]
  have most : roundLength bytes written offset ≤ bytes.length - written := Nat.min_le_left _ _
  have fits : offset % sectorSize + roundLength bytes written offset ≤ sectorSize := by
    simp only [roundLength, sectorSize]
    omega
  have some : 0 < roundLength bytes written offset := by
    simp only [roundLength, sectorSize]
    omega
  have length : ((bytes.drop written).take (roundLength bytes written offset)).length =
      roundLength bytes written offset := by
    rw [List.length_take, List.length_drop]
    exact Nat.min_eq_left most
  obtain ⟨drive₁, read, quiet⟩ := sectorBefore_eq ready
    (clusterToSector volume cluster + offset / sectorSize) offset
  obtain ⟨drive₂, stores, ready₂, stored⟩ := write_of_ready quiet.ready
    (clusterToSector volume cluster + offset / sectorSize)
    ((buffered drive.shown (clusterToSector volume cluster + offset / sectorSize) offset).storeBytes
      (offset % sectorSize) ((bytes.drop written).take (roundLength bytes written offset)))
  refine ⟨drive₂, ready₂, ?_, ?_⟩
  · apply writeEffect_sector injective (fileSectors_nodup geometry nodup valid)
      (fun sector member => transferred_of_mem valid member) there
    · apply List.ne_nil_of_length_pos
      rw [length]
      exact some
    · rw [start, length]
      exact fits
    · intro other
      rw [stored, quiet.shown, start, buffered, buffered, start]
  have advanced : (file.pos + roundLength bytes written offset) % 2 ^ 32 =
      file.pos + roundLength bytes written offset := Nat.mod_eq_of_lt (by omega)
  have next : { file with
      pos := (file.pos + roundLength bytes written offset) % 2 ^ 32
      size := max file.size ((file.pos + roundLength bytes written offset) % 2 ^ 32) } =
        file.advance (roundLength bytes written offset) := by
    rw [advanced]
    rfl
  rw [writeLoop, if_neg (Nat.not_le.mpr more)]
  dsimp only
  rw [sector, if_neg (by simp only [validHere, sectorSize] at row ⊢; simp; omega),
    if_neg (by simp only [noSector, sectorSize] at row ⊢; omega), read]
  dsimp only
  rw [← roundLength, stores]
  dsimp only
  rw [next]

theorem writeLoop_done (more : fuel ≠ 0) (all : written = bytes.length) :
    writeLoop volume bytes fuel cluster offset written file drive =
      (some bytes.length, file, (fsUpdateDirEntry volume file drive).2) := by
  obtain ⟨fuel, rfl⟩ := Nat.exists_eq_add_one_of_ne_zero more
  rw [writeLoop, if_pos all.ge, all]

theorem writeLoop_written (geometry : Geometry volume)
    (injective : Set.InjOn lba28 {sector | Transferred volume sector}) (nodup : clusters.Nodup)
    (valid : ∀ cluster ∈ clusters, clusterValid volume cluster = true) (ready : drive.Ready)
    (linked : Linked volume drive.shown clusters)
    (here : clusters[index]? = some cluster) (inside : offset < clusterSize volume)
    (position : file.pos = index * clusterSize volume + offset) (more : written < bytes.length)
    (covered : file.pos + (bytes.length - written) ≤ clusters.length * clusterSize volume)
    (below : file.pos + (bytes.length - written) < 2 ^ 32)
    (enough : bytes.length - written < fuel) :
    ∃ drive', drive'.Ready ∧
      WriteEffect volume clusters file.pos (bytes.drop written) drive.shown drive'.shown ∧
      writeLoop volume bytes fuel cluster offset written file drive =
        (some bytes.length, file.advance (bytes.length - written),
          (fsUpdateDirEntry volume (file.advance (bytes.length - written)) drive').2) := by
  induction fuel generalizing index cluster offset written file drive with
  | zero => cases enough
  | succ fuel ih =>
  obtain ⟨drive₁, ready₁, effect, round⟩ := @writeLoop_round volume clusters drive file bytes
    cluster index offset written fuel geometry injective nodup valid ready here inside position
    more below
  rw [round]
  have size : 0 < clusterSize volume := Nat.mul_pos geometry.perCluster (by decide)
  generalize counted : roundLength bytes written offset = count at effect ⊢
  have most : count ≤ bytes.length - written := counted ▸ Nat.min_le_left _ _
  have some : 0 < count := by
    simp only [roundLength, sectorSize] at counted
    omega
  have length : ((bytes.drop written).take count).length = count := by
    rw [List.length_take, List.length_drop]
    exact Nat.min_eq_left most
  dsimp only
  by_cases last : bytes.length ≤ written + count
  · -- all bytes are written
    have all : count = bytes.length - written := by omega
    have whole : (bytes.drop written).take count = bytes.drop written :=
      List.take_of_length_le (by rw [List.length_drop]; omega)
    rw [whole] at effect
    have ended : fuel ≠ 0 ∧ written + count = bytes.length := by omega
    refine ⟨drive₁, ready₁, effect, ?_⟩
    rw [if_neg (Nat.not_lt.mpr last), writeLoop_done ended.1 ended.2,
      writeLoop_done ended.1 ended.2, ite_self, all]
  have rest : bytes.length - (written + count) = bytes.length - written - count := by omega
  have total : count + (bytes.length - (written + count)) = bytes.length - written := by
    omega
  have full : count = sectorSize - offset % sectorSize := by
    simp only [roundLength, sectorSize] at counted ⊢
    omega
  have linked₁ := effect.linked geometry valid linked
  have boundary : (file.pos + ((bytes.drop written).take count).length) % sectorSize = 0 := by
    have start := sector_offset position
    rw [length]
    simp only [sectorSize] at start full ⊢
    omega
  have begun : (bytes.drop written).take count ≠ [] := by
    apply List.ne_nil_of_length_pos
    rw [length]
    exact some
  have unfinished : (bytes.drop written).drop count ≠ [] := by
    apply List.ne_nil_of_length_pos
    rw [List.length_drop, List.length_drop]
    omega
  -- the rest is written from the place where the next round begins
  have onward : ∀ {index' cluster' offset'} {drive₂ : Drive}, drive₂.Ready →
      drive₂.shown = drive₁.shown → clusters[index']? = Option.some cluster' →
      offset' < clusterSize volume →
      file.pos + count = index' * clusterSize volume + offset' →
      ∃ drive', drive'.Ready ∧
        WriteEffect volume clusters file.pos (bytes.drop written) drive.shown drive'.shown ∧
        writeLoop volume bytes fuel cluster' offset' (written + count) (file.advance count)
          drive₂ = (Option.some bytes.length, file.advance (bytes.length - written),
            (fsUpdateDirEntry volume (file.advance (bytes.length - written)) drive').2) := by
    intro index' cluster' offset' drive₂ ready₂ same here' inside' position'
    obtain ⟨drive', ready', effect', written'⟩ := @ih drive₂ (file.advance count) cluster'
      index' offset' (written + count) ready₂ (same ▸ linked₁) here' inside' position'
      (by omega) (by dsimp only [File.advance]; omega) (by dsimp only [File.advance]; omega)
      (by omega)
    refine ⟨drive', ready', ?_, ?_⟩
    · rw [← List.take_append_drop count (bytes.drop written)]
      apply effect.append boundary begun _ unfinished
      rw [length, List.drop_drop, ← same]
      exact effect'
    · rw [written', File.advance_advance, total]
  split
  next ends =>
    have next_position : file.pos + count = (index + 1) * clusterSize volume + 0 := by
      rw [position, Nat.add_assoc, (sector_end_le inside full.le).antisymm ends, Nat.succ_mul,
        Nat.add_zero]
    have following : index + 1 < clusters.length := by
      by_contra beyond
      have few : clusters.length * clusterSize volume ≤ (index + 1) * clusterSize volume :=
        Nat.mul_le_mul_right _ (Nat.not_lt.mp beyond)
      omega
    obtain ⟨_, rfl⟩ := List.getElem?_eq_some_iff.mp here
    obtain ⟨drive₂, followed, quiet⟩ := linked₁.fatGet geometry valid ready₁ following
    rw [if_pos (Nat.not_le.mp last), followed]
    dsimp only
    rw [if_neg (by simp [valid _ (List.getElem_mem following)])]
    exact onward quiet.ready quiet.shown (List.getElem?_eq_getElem following) size
      next_position
  next within =>
    apply onward ready₁ rfl here (Nat.not_le.mp within)
    rw [position, Nat.add_assoc]

end Loop

end Charis.Fs
