import Charis.Fs.WriteLaw

/-!
# Opening a file again

After a write the directory has the new size of the file, and its first cluster as before.  A
file that is opened again is what was written if it had a first cluster.
-/

namespace Charis.Fs

open Charis.Lib

/-- A file that is found again, with another size if it is found in the same entry. -/
def File.resized (volume : Volume) (opened : File) (size : Nat) (file : File) : File :=
  if dirSectorOf volume file = dirSectorOf volume opened ∧ file.dirIndex = opened.dirIndex then
    { file with size }
  else file

/-- What is found is changed when everything that can be found is. -/
theorem findSome?_eq_map {α β γ : Type*} {items : List α} {look : α → Option β}
    {look' : α → Option γ} {change : β → γ}
    (same : ∀ item ∈ items, look' item = (look item).map change) :
    items.findSome? look' = (items.findSome? look).map change := by
  induction items with
  | nil => rfl
  | cons item items ih =>
      have rest := ih fun other member => same other (List.mem_cons_of_mem _ member)
      rw [List.findSome?_cons, List.findSome?_cons, same item List.mem_cons_self, rest]
      cases look item with
      | none => rfl
      | some result => rfl

section Directory

variable {volume : Volume} {path : List UInt8} {before after : Nat → ByteMemory}
  {buffer buffer' : ByteMemory} {opened : File} {cluster s size : Nat}

theorem nameMatches_congr {index : Nat}
    (same : ∀ offset < 12, buffer' (32 * index + offset) = buffer (32 * index + offset)) :
    nameMatches path (fun offset => buffer' (32 * index + offset)) =
      nameMatches path (fun offset => buffer (32 * index + offset)) := by
  have names : nameAt (fun _ => buffer') ⟨0, index⟩ = nameAt (fun _ => buffer) ⟨0, index⟩ := by
    apply ByteMemory.loadBytes_congr
    intro address above below
    obtain ⟨offset, rfl⟩ := Nat.exists_eq_add_of_le above
    exact same offset (by omega)
  rw [Bool.eq_iff_iff]
  exact (@nameMatches_at (fun _ => buffer') ⟨0, index⟩ path).trans
    (names ▸ (@nameMatches_at (fun _ => buffer) ⟨0, index⟩ path).symm)

/-- The search for a name only looks at names and attributes. -/
theorem findEntry_congr {remaining index : Nat}
    (same : ∀ index, ∀ offset < 12, buffer' (32 * index + offset) = buffer (32 * index + offset)) :
    findEntry path buffer' remaining index = findEntry path buffer remaining index := by
  induction remaining generalizing index with
  | zero => rfl
  | succ remaining ih =>
      have first := same index 0 (by omega)
      rw [Nat.add_zero] at first
      rw [findEntry, findEntry, first, same index 11 (by omega), nameMatches_congr (same index), ih]

/-- A sector of the directory in which the size of an entry is changed. -/
theorem fileIn_resized (small : size < 2 ^ 32)
    (stored : after (clusterToSector volume cluster + s) =
      if clusterToSector volume cluster + s = dirSectorOf volume opened then
        (before (clusterToSector volume cluster + s)).writeLE (32 * opened.dirIndex + 28) 4 size
      else before (clusterToSector volume cluster + s)) :
    fileIn volume path after cluster s =
      (fileIn volume path before cluster s).map (File.resized volume opened size) := by
  rw [fileIn, fileIn, stored]
  split
  next here =>
    rw [findEntry_congr fun index offset below => ByteMemory.writeLE_of_outside (by omega)]
    cases findEntry path (before (clusterToSector volume cluster + s)) 16 0 with
    | none => rfl
    | some index =>
    rw [Option.map_some, Option.map_some, Option.map_some, Option.some_inj, File.resized]
    by_cases same : index = opened.dirIndex
    · rw [if_pos ⟨here, same⟩, same, ByteMemory.readLE_writeLE_self,
        ByteMemory.readLE_writeLE_of_apart (by omega),
        ByteMemory.readLE_writeLE_of_apart (by omega), Nat.mod_eq_of_lt (by omega)]
    · rw [if_neg fun both => same both.2, ByteMemory.readLE_writeLE_of_apart (by omega),
        ByteMemory.readLE_writeLE_of_apart (by omega),
        ByteMemory.readLE_writeLE_of_apart (by omega)]
  next elsewhere =>
    cases findEntry path (before (clusterToSector volume cluster + s)) 16 0 with
    | none => rfl
    | some index =>
        rw [Option.map_some, Option.map_some, Option.some_inj, File.resized]
        exact (if_neg fun both => elsewhere both.1).symm

theorem walk_eq_of_entries {remaining : Nat}
    (same : ∀ other ∈ walk volume before remaining cluster,
      entryIn volume after other = entryIn volume before other) :
    walk volume after remaining cluster = walk volume before remaining cluster := by
  induction remaining generalizing cluster with
  | zero => rfl
  | succ remaining ih =>
  rw [walk] at same
  rw [walk, walk]
  split
  next valid =>
    rw [if_pos valid] at same
    have entry := same cluster List.mem_cons_self
    have link : linkOf volume after cluster = linkOf volume before cluster := by
      rw [entryIn, entryIn] at entry
      rw [linkOf, linkOf, entry]
    rw [link, ih fun other member => same other (List.mem_cons_of_mem _ member)]
  next => rfl

end Directory

/-- A file has a chain that covers its size, and the clusters of the root directory are in use,
and not by the file. -/
structure ApartFromRoot (volume : Volume) (disk : Nat → ByteMemory) (file : File)
    (clusters : List Nat) : Prop where
  chain : FileChain volume disk file clusters
  used : ∀ cluster ∈ rootClusters volume disk, entryIn volume disk cluster ≠ 0
  apart : (rootClusters volume disk).Disjoint clusters

section Opened

variable {volume : Volume} {path : List UInt8} {disk : Nat → ByteMemory} {found : File}

/-- Where the directory entry of a file is, and what the file has from it. -/
theorem found_of_findSome?
    (result : ((rootClusters volume disk).findSome? fun cluster =>
      (List.range' 0 volume.sectorsPerCluster).findSome? (fileIn volume path disk cluster)) =
        some found) :
    found.dirCluster ∈ rootClusters volume disk ∧
      found.dirSector < volume.sectorsPerCluster ∧
      found.cluster = (disk (dirSectorOf volume found)).readLE (32 * found.dirIndex + 20) 2 *
        2 ^ 16 + (disk (dirSectorOf volume found)).readLE (32 * found.dirIndex + 26) 2 ∧
      found.size < 2 ^ 32 := by
  obtain ⟨cluster, of_root, result⟩ := List.exists_of_findSome?_eq_some result
  obtain ⟨s, inside, result⟩ := List.exists_of_findSome?_eq_some result
  obtain ⟨index, -, rfl⟩ := Option.map_eq_some_iff.mp result
  rw [List.mem_range'_1] at inside
  exact ⟨of_root, by dsimp only; omega, rfl, ByteMemory.readLE_lt _ _ _⟩

theorem ApartFromRoot.openFile {clusters : List Nat}
    (apart : ApartFromRoot volume disk found clusters)
    (member : found.dirCluster ∈ rootClusters volume disk)
    (below : found.dirSector < volume.sectorsPerCluster) (pos : Nat) :
    OpenFile volume disk { found with pos } clusters where
  chain := ⟨apart.chain.chain, apart.chain.used, apart.chain.covers⟩
  valid := valid_of_mem_walk member
  below := below
  used := apart.used _ member
  apart := apart.apart member

end Opened

namespace Steps

variable {volume : Volume} {path : List UInt8} {file extended found : File}
  {clusters clusters' : List Nat} {bytes : List UInt8}
  {before linked written after : Nat → ByteMemory}

/-- A write changes the size in one entry of the root directory, and nothing else there. -/
theorem root (geometry : Geometry volume)
    (injective : Set.InjOn lba28 {sector | Transferred volume sector})
    (opened : OpenFile volume before file clusters)
    (apart : ApartFromRoot volume before found clusters)
    (steps : Steps volume file extended clusters clusters' bytes before linked written after)
    {cluster s : Nat} (of_root : cluster ∈ rootClusters volume before)
    (below : s < volume.sectorsPerCluster) :
    after (clusterToSector volume cluster + s) =
      if clusterToSector volume cluster + s = dirSectorOf volume file then
        (before (clusterToSector volume cluster + s)).writeLE (32 * file.dirIndex + 28) 4
          (extended.advance bytes.length).size
      else before (clusterToSector volume cluster + s) := by
  have valid := valid_of_mem_walk of_root
  have kept := steps.written_of_used geometry valid (apart.used cluster of_root)
    (fun again => apart.apart of_root again) below
  split
  next here =>
    rw [steps.entry, here, if_pos rfl, ← here, kept]
  next elsewhere =>
    rw [steps.after_of_ne injective opened (.data valid below) elsewhere, kept]

theorem rootClusters_eq (geometry : Geometry volume)
    (injective : Set.InjOn lba28 {sector | Transferred volume sector})
    (opened : OpenFile volume before file clusters)
    (apart : ApartFromRoot volume before found clusters)
    (steps : Steps volume file extended clusters clusters' bytes before linked written after) :
    rootClusters volume after = rootClusters volume before := by
  apply walk_eq_of_entries
  intro cluster of_root
  have valid := valid_of_mem_walk of_root
  rw [steps.entries geometry injective opened valid]
  exact steps.extension.entries cluster valid (apart.used cluster of_root)
    fun again => apart.apart of_root again

/-- What is found in the root directory after a write is what was found before. -/
theorem findSome?_eq (geometry : Geometry volume)
    (injective : Set.InjOn lba28 {sector | Transferred volume sector})
    (opened : OpenFile volume before file clusters)
    (apart : ApartFromRoot volume before found clusters)
    (steps : Steps volume file extended clusters clusters' bytes before linked written after)
    (small : (extended.advance bytes.length).size < 2 ^ 32) :
    ((rootClusters volume after).findSome? fun cluster =>
        (List.range' 0 volume.sectorsPerCluster).findSome? (fileIn volume path after cluster)) =
      ((rootClusters volume before).findSome? fun cluster =>
        (List.range' 0 volume.sectorsPerCluster).findSome?
          (fileIn volume path before cluster)).map
        (File.resized volume file (extended.advance bytes.length).size) := by
  rw [steps.rootClusters_eq geometry injective opened apart]
  apply findSome?_eq_map
  intro cluster of_root
  apply findSome?_eq_map
  intro s inside
  rw [List.mem_range'_1] at inside
  exact fileIn_resized small (steps.root geometry injective opened apart of_root (by omega))

theorem bytes_written (geometry : Geometry volume)
    (injective : Set.InjOn lba28 {sector | Transferred volume sector})
    (opened : OpenFile volume before file clusters)
    (steps : Steps volume file extended clusters clusters' bytes before linked written after) :
    ((contents volume after clusters' (extended.advance bytes.length).size).drop file.pos).take
      bytes.length = bytes := by
  have chain := steps.chain geometry injective opened
  have size : file.pos + bytes.length ≤ (extended.advance bytes.length).size := by
    rw [File.advance, steps.extension.same]
    exact Nat.le_max_right _ _
  rw [contents_eq_map chain.covers, byteAt_congr (steps.sectors geometry injective opened)]
  apply List.ext_getElem
  · rw [List.length_take, List.length_drop, List.length_map, List.length_range]
    omega
  · intro index inside below
    rw [List.getElem_take, List.getElem_drop, List.getElem_map, List.getElem_range]
    exact steps.data.bytes.written index below

end Steps

theorem FileChain.clusterChain {volume : Volume} {drive : Drive} {file : File}
    {clusters : List Nat} (geometry : Geometry volume)
    (chain : FileChain volume drive.shown file clusters) :
    ClusterChain volume drive.sectors file.cluster file.size clusters where
  first := by
    intro cluster first
    rw [chain.head, startOf] at first
    split at first
    · exact (Option.some.inj first).symm
    · cases first
  valid := chain.valid
  linked := by
    apply List.isChain_iff_getElem.mpr
    intro i below
    rw [← List.isChain_iff_getElem.mp chain.linked i below, fatEntry, entryIn, Drive.shown,
      (geometry.lba28_fatSector (chain.valid _ (List.getElem_mem _))).2]
  covers := chain.covers

/-- What is expected after a write: the directory entry has the first cluster and the size of the
handle, and the file that is opened again is read as it was written. -/
structure Recorded (volume : Volume) (path : List UInt8) (file : File) (bytes : List UInt8)
    (drive : Drive) : Prop where
  cluster : ((fsWrite volume file bytes drive).2.2.shown (dirSectorOf volume file)).readLE
      (32 * file.dirIndex + 20) 2 * 2 ^ 16 +
    ((fsWrite volume file bytes drive).2.2.shown (dirSectorOf volume file)).readLE
      (32 * file.dirIndex + 26) 2 = (fsWrite volume file bytes drive).2.1.cluster
  size : ((fsWrite volume file bytes drive).2.2.shown (dirSectorOf volume file)).readLE
    (32 * file.dirIndex + 28) 4 = (fsWrite volume file bytes drive).2.1.size
  reopened : ∃ again drive', fsOpen volume path (fsWrite volume file bytes drive).2.2 =
      (some again, drive') ∧
    again.cluster = (fsWrite volume file bytes drive).2.1.cluster ∧
    again.size = (fsWrite volume file bytes drive).2.1.size ∧
    (fsRead volume { again with pos := file.pos } bytes.length drive').1 = some bytes

section Recorded

variable {volume : Volume} {path : List UInt8} {drive : Drive} {found : File} {pos : Nat}
  {clusters : List Nat} {bytes : List UInt8}

theorem recorded_of_found (geometry : Geometry volume)
    (injective : Set.InjOn lba28 {sector | Transferred volume sector}) (ready : drive.Ready)
    (result : ((rootClusters volume drive.shown).findSome? fun cluster =>
      (List.range' 0 volume.sectorsPerCluster).findSome?
        (fileIn volume (relative path) drive.shown cluster)) = some found)
    (apart : ApartFromRoot volume drive.shown found clusters)
    (wrote : (fsWrite volume { found with pos } bytes drive).1 = some bytes.length) :
    Recorded volume path { found with pos } bytes drive ↔
      clusterValid volume found.cluster = true := by
  obtain ⟨of_root, below, first, small⟩ := found_of_findSome? result
  have opened := apart.openFile of_root below pos
  obtain ⟨some, ready', extended, clusters', linked, written, handle, steps⟩ :=
    fsWrite_steps geometry injective ready opened wrote
  have chain := steps.chain geometry injective opened
  have length := List.length_pos_of_ne_nil some
  have entry : (fsWrite volume { found with pos } bytes drive).2.2.shown
      (dirSectorOf volume found) = (drive.shown (dirSectorOf volume found)).writeLE
        (32 * found.dirIndex + 28) 4 (extended.advance bytes.length).size := by
    have root := steps.root geometry injective opened apart of_root below
    exact root.trans (if_pos rfl)
  have sized : (extended.advance bytes.length).size < 2 ^ 32 := by
    rw [File.advance, steps.extension.same]
    exact max_lt small steps.small
  have kept : ((fsWrite volume { found with pos } bytes drive).2.2.shown
        (dirSectorOf volume found)).readLE (32 * found.dirIndex + 20) 2 * 2 ^ 16 +
      ((fsWrite volume { found with pos } bytes drive).2.2.shown
        (dirSectorOf volume found)).readLE (32 * found.dirIndex + 26) 2 = found.cluster := by
    rw [entry, ByteMemory.readLE_writeLE_of_apart (by omega),
      ByteMemory.readLE_writeLE_of_apart (by omega), first]
  constructor
  · intro recorded
    have same : found.cluster = extended.cluster := by
      have cluster := recorded.cluster
      rw [handle] at cluster
      exact kept.symm.trans cluster
    -- the file has a cluster after the write
    have begins := chain.head
    have filled : clusters' ≠ [] := by
      rintro rfl
      have reaches := steps.reaches
      rw [List.length_nil, Nat.zero_mul] at reaches
      omega
    obtain ⟨cluster, rest, rfl⟩ := List.exists_cons_of_ne_nil filled
    rw [List.head?_cons, startOf] at begins
    split at begins
    next valid => exact same ▸ valid
    next => cases begins
  intro valid
  have same : extended.cluster = found.cluster := steps.extension.first valid
  have again := @Steps.findSome?_eq volume (relative path) _ _ _ _ _ _ _ _ _ _ geometry injective
    opened apart steps sized
  rw [result, Option.map_some, File.resized, if_pos ⟨rfl, rfl⟩] at again
  obtain ⟨drive', reopens, quiet⟩ := @fsOpen_eq volume path _ geometry ready'
  rw [again] at reopens
  have read : FileChain volume drive'.shown
      { found with size := (extended.advance bytes.length).size, pos } clusters' := by
    rw [quiet.shown]
    refine ⟨?_, chain.used, chain.covers⟩
    have links := chain.chain
    rwa [File.advance, same] at links
  obtain ⟨file', drive'', reads, -⟩ :=
    fsRead_reads geometry (read.clusterChain geometry) quiet.ready bytes.length
  rw [quiet.shown, steps.bytes_written geometry injective opened] at reads
  constructor
  · rw [handle]
    exact kept.trans same.symm
  · rw [handle]
    refine (congrArg (ByteMemory.readLE · (32 * found.dirIndex + 28) 4) entry).trans ?_
    rw [ByteMemory.readLE_writeLE_self, Nat.mod_eq_of_lt (by omega)]
  · refine ⟨_, drive', reopens, ?_, ?_, ?_⟩
    · rw [handle]
      exact same.symm
    · rw [handle]
    · rw [reads]

theorem recorded_of_opens (geometry : Geometry volume)
    (injective : Set.InjOn lba28 {sector | Transferred volume sector}) (ready : drive.Ready)
    (opens : (fsOpen volume path drive).1 = some found)
    (apart : ApartFromRoot volume drive.shown found clusters)
    (wrote : (fsWrite volume { found with pos } bytes (fsOpen volume path drive).2).1 =
      some bytes.length) :
    Recorded volume path { found with pos } bytes (fsOpen volume path drive).2 ↔
      clusterValid volume found.cluster = true := by
  obtain ⟨drive', result, quiet⟩ := @fsOpen_eq volume path drive geometry ready
  rw [result] at opens wrote ⊢
  rw [← quiet.shown] at opens apart
  exact recorded_of_found geometry injective quiet.ready opens apart wrote

/-- A file that was found and written is recorded in its directory entry, and opened again as it
was written, if and only if it had a first cluster. -/
theorem recorded_iff (mounted : Mounted volume)
    (injective : Set.InjOn lba28 {sector | Transferred volume sector}) (ready : drive.Ready)
    (opens : (fsOpen volume path drive).1 = some found)
    (apart : ApartFromRoot volume drive.shown found clusters)
    (wrote : (fsWrite volume { found with pos } bytes (fsOpen volume path drive).2).1 =
      some bytes.length) :
    Recorded volume path { found with pos } bytes (fsOpen volume path drive).2 ↔
      clusterValid volume found.cluster = true :=
  recorded_of_opens mounted.geometry injective ready opens apart wrote

end Recorded

/-- A byte is written behind the end of a file of two bytes. -/
theorem recorded_iff_listed :
    Recorded smallVolume shortPath ⟨3, 2, 2, 2, 0, 0⟩ [67]
      (fsOpen smallVolume shortPath (listed 3 2)).2 := by
  have root : rootClusters smallVolume (listed 3 2).shown = [2] := by decide
  apply (@recorded_iff smallVolume shortPath (listed 3 2) ⟨3, 2, 0, 2, 0, 0⟩ 2 [3] [67]
    smallVolume_mounted (injOn_transferred smallVolume_mounted.geometry (by decide))
    (fun _ _ => rfl) (by decide) ?_ (by decide)).mpr (by decide)
  constructor
  · refine ⟨⟨rfl, rfl⟩, ?_, by decide⟩
    intro cluster member
    rw [List.mem_singleton.mp member]
    decide
  · intro cluster member
    rw [root] at member
    rw [List.mem_singleton.mp member]
    decide
  · rw [root]
    exact List.disjoint_singleton.mpr (by decide)

/-- A file without contents has no first cluster: it gets one that the directory does not know. -/
theorem not_recorded :
    ¬∀ (volume : Volume) (path : List UInt8) (drive : Drive) (found : File) (pos : Nat)
        (clusters : List Nat) (bytes : List UInt8), Mounted volume →
        Set.InjOn lba28 {sector | Transferred volume sector} → drive.Ready →
        (fsOpen volume path drive).1 = some found →
        ApartFromRoot volume drive.shown found clusters →
        (fsWrite volume { found with pos } bytes (fsOpen volume path drive).2).1 =
          some bytes.length →
        Recorded volume path { found with pos } bytes (fsOpen volume path drive).2 := by
  intro claimed
  have injective := injOn_transferred smallVolume_mounted.geometry (by decide)
  have root : rootClusters smallVolume (listed 0 0).shown = [2] := by decide
  have apart : ApartFromRoot smallVolume (listed 0 0).shown ⟨0, 0, 0, 2, 0, 0⟩ [] := by
    constructor
    · exact ⟨rfl, nofun, Nat.le_refl 0⟩
    · intro cluster member
      rw [root] at member
      rw [List.mem_singleton.mp member]
      decide
    · exact List.disjoint_nil_right _
  have opens : (fsOpen smallVolume shortPath (listed 0 0)).1 = some ⟨0, 0, 0, 2, 0, 0⟩ := by decide
  have wrote : (fsWrite smallVolume ⟨0, 0, 0, 2, 0, 0⟩ [67]
      (fsOpen smallVolume shortPath (listed 0 0)).2).1 = some 1 := by decide
  have recorded := claimed smallVolume shortPath (listed 0 0) ⟨0, 0, 0, 2, 0, 0⟩ 0 [] [67]
    smallVolume_mounted injective (fun _ _ => rfl) opens apart wrote
  have valid := (@recorded_of_opens smallVolume shortPath (listed 0 0) ⟨0, 0, 0, 2, 0, 0⟩ 0 [] [67]
    smallVolume_mounted.geometry injective (fun _ _ => rfl) opens apart wrote).mp recorded
  revert valid
  decide

end Charis.Fs
