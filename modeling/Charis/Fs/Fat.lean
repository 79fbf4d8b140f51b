import Charis.Lib.ByteMemory

/-!
# The FAT32 volume

The drive hands over and takes whole sectors, and every transfer can fail.  On top of it are
the cluster chains of the allocation table, the root directory, which is the only one, and
files that are read, extended and written through a handle.

Numbers are those of the 32-bit variables of the driver, reduced where they can overflow.
-/

namespace Charis.Fs

open Charis.Lib

/-- `FAT32_SECTOR_SIZE`. -/
abbrev sectorSize : Nat := 512

/-- How a transfer ends.  The drive can store a sector and then not become ready again. -/
inductive Transfer where
  | done
  | failed
  | late
  deriving DecidableEq, Repr

/-- The drive, with the outcome of every transfer to come. -/
structure Drive where
  sectors : Nat → ByteMemory
  outcome : Nat → Transfer
  transfers : Nat := 0

/-- The sector that the address registers select. -/
def lba28 (lba : Nat) : Nat := lba % 2 ^ 28

/-- `ata_read_sector`. -/
def ataReadSector (drive : Drive) (lba : Nat) : Option ByteMemory × Drive :=
  let next := { drive with transfers := drive.transfers + 1 }
  match drive.outcome drive.transfers with
  | .done => (some (drive.sectors (lba28 lba)), next)
  | .failed | .late => (none, next)

/-- `ata_write_sector`. -/
def ataWriteSector (drive : Drive) (lba : Nat) (buffer : ByteMemory) : Bool × Drive :=
  let next := { drive with transfers := drive.transfers + 1 }
  let stored := { next with sectors := Function.update drive.sectors (lba28 lba) buffer }
  match drive.outcome drive.transfers with
  | .done => (true, stored)
  | .failed => (false, next)
  | .late => (false, stored)

/-- The fields of the boot sector that the driver uses, and what `fs_init` derives from
them. -/
structure Volume where
  mounted : Bool
  sectorsPerCluster : Nat
  numFats : Nat
  fatSize32 : Nat
  totalSectors32 : Nat
  rootCluster : Nat
  fatStart : Nat
  dataStart : Nat
  totalClusters : Nat
  deriving DecidableEq, Repr

/-- A volume on which nothing is done. -/
def unmounted : Volume := ⟨false, 0, 0, 0, 0, 0, 0, 0, 0⟩

/-- `cluster_valid`. -/
def clusterValid (volume : Volume) (cluster : Nat) : Bool :=
  2 ≤ cluster && cluster < volume.totalClusters + 2

/-- `fs_init`. -/
def fsInit (drive : Drive) : Volume × Drive :=
  match ataReadSector drive 0 with
  | (none, drive) => (unmounted, drive)
  | (some boot, drive) =>
      let sectorsPerCluster := (boot 13).toNat
      let reservedSectors := boot.readLE 14 2
      let numFats := (boot 16).toNat
      let rootEntries := boot.readLE 17 2
      let totalSectors32 := boot.readLE 32 4
      let fatSize32 := boot.readLE 36 4
      let rootCluster := boot.readLE 44 4
      let rootDirSectors := (rootEntries * 32 + (sectorSize - 1)) / sectorSize
      let dataStart := reservedSectors + numFats * fatSize32 + rootDirSectors
      let totalClusters := (totalSectors32 - dataStart) / sectorsPerCluster
      let volume : Volume :=
        { mounted := true, sectorsPerCluster, numFats, fatSize32, totalSectors32, rootCluster
          fatStart := reservedSectors, dataStart, totalClusters }
      if boot.loadBytes 82 5 ≠ [70, 65, 84, 51, 50] then (unmounted, drive)
      else if boot.readLE 11 2 ≠ sectorSize ∨ sectorsPerCluster = 0 ∨ 128 < sectorsPerCluster ∨
          sectorsPerCluster &&& (sectorsPerCluster - 1) ≠ 0 ∨ reservedSectors = 0 ∨
          numFats = 0 ∨ fatSize32 = 0 ∨ totalSectors32 = 0 then
        (unmounted, drive)
      -- the second test subtracts in the type of the sector count
      else if totalSectors32 ≤ dataStart ∨
          (totalSectors32 + 2 ^ 32 - reservedSectors) % 2 ^ 32 / numFats < fatSize32 then
        (unmounted, drive)
      else if totalClusters = 0 ∨ 0x0FFFFFEE < totalClusters ∨
          fatSize32 * sectorSize / 4 < totalClusters + 2 then
        (unmounted, drive)
      else if !clusterValid volume rootCluster then (unmounted, drive)
      else (volume, drive)

/-- What stands for a sector that does not exist. -/
abbrev noSector : Nat := 0xFFFFFFFF

/-- The end of a chain. -/
abbrev endOfChain : Nat := 0x0FFFFFFF

/-- `cluster_to_sector`. -/
def clusterToSector (volume : Volume) (cluster : Nat) : Nat :=
  if !clusterValid volume cluster then noSector
  else (volume.dataStart + (cluster - 2) * volume.sectorsPerCluster) % 2 ^ 32

/-- The offset of the entry of a cluster in the allocation table. -/
def entryOffset (cluster : Nat) : Nat := cluster * 4 % 2 ^ 32

/-- The sector that holds the entry of a cluster. -/
def fatSector (volume : Volume) (cluster : Nat) : Nat :=
  (volume.fatStart + entryOffset cluster / sectorSize) % 2 ^ 32

/-- `next_cluster`. -/
def nextCluster (volume : Volume) (drive : Drive) (cluster : Nat) : Nat × Drive :=
  if !volume.mounted || !clusterValid volume cluster then (endOfChain, drive)
  else if volume.fatSize32 ≤ entryOffset cluster / sectorSize then (endOfChain, drive)
  else
    match ataReadSector drive (fatSector volume cluster) with
    | (none, drive) => (endOfChain, drive)
    | (some buffer, drive) =>
        let next := buffer.readLE (entryOffset cluster % sectorSize) 4 % 2 ^ 28
        if next < 2 ∨ 0x0FFFFFF0 ≤ next ∨ !clusterValid volume next then (endOfChain, drive)
        else (next, drive)

/-- `fat_get`. -/
def fatGet (volume : Volume) (drive : Drive) (cluster : Nat) : Nat × Drive :=
  if !volume.mounted || !clusterValid volume cluster then (endOfChain, drive)
  else if volume.fatSize32 ≤ entryOffset cluster / sectorSize then (endOfChain, drive)
  else if volume.totalSectors32 ≤ fatSector volume cluster then (endOfChain, drive)
  else
    match ataReadSector drive (fatSector volume cluster) with
    | (none, drive) => (endOfChain, drive)
    | (some buffer, drive) =>
        (buffer.readLE (entryOffset cluster % sectorSize) 4 % 2 ^ 28, drive)

/-- A number is changed inside a sector. -/
def patchSector (drive : Drive) (sector offset width value : Nat) : Bool × Drive :=
  match ataReadSector drive sector with
  | (none, drive) => (false, drive)
  | (some buffer, drive) => ataWriteSector drive sector (buffer.writeLE offset width value)

/-- `fat_set`: the entry is changed in the first table, and in the second if there is one. -/
def fatSet (volume : Volume) (drive : Drive) (cluster value : Nat) : Bool × Drive :=
  let value := value % 2 ^ 28
  if !volume.mounted || !clusterValid volume cluster then (false, drive)
  else if value ≠ 0 ∧ value < 0x0FFFFFF8 ∧ !clusterValid volume value then (false, drive)
  else if volume.fatSize32 ≤ entryOffset cluster / sectorSize then (false, drive)
  else
    let sector := fatSector volume cluster
    let offset := entryOffset cluster % sectorSize
    if volume.totalSectors32 ≤ sector then (false, drive)
    else
      match patchSector drive sector offset 4 value with
      | (false, drive) => (false, drive)
      | (true, drive) =>
          if 2 ≤ volume.numFats then
            if volume.totalSectors32 ≤ sector + volume.fatSize32 then (false, drive)
            else patchSector drive (sector + volume.fatSize32) offset 4 value
          else (true, drive)

/-- The loop of `fat_alloc_cluster`. -/
def findFreeCluster (volume : Volume) : (remaining cluster : Nat) → Drive → Option Nat × Drive
  | 0, _, drive => (none, drive)
  | remaining + 1, cluster, drive =>
      match fatGet volume drive cluster with
      | (0, drive) =>
          match fatSet volume drive cluster endOfChain with
          | (false, drive) => (none, drive)
          | (true, drive) => (some cluster, drive)
      | (_ + 1, drive) => findFreeCluster volume remaining (cluster + 1) drive

/-- `fat_alloc_cluster`. -/
def fatAllocCluster (volume : Volume) (drive : Drive) : Option Nat × Drive :=
  findFreeCluster volume volume.totalClusters 2 drive

/-- `fat_upper`. -/
def fatUpper (value : UInt8) : UInt8 :=
  if 97 ≤ value ∧ value ≤ 122 then value - 97 + 65 else value

/-- The characters of a path up to a dot, compared with a name from a position on: how many
there are, and what is left of the path. -/
def matchBase (raw : Nat → UInt8) : List UInt8 → (length : Nat) → Option (Nat × List UInt8)
  | [], length => some (length, [])
  | char :: rest, length =>
      if char = 46 then some (length, char :: rest)
      else if length = 8 ∨ fatUpper char ≠ raw length then none
      else matchBase raw rest (length + 1)

/-- The characters of an extension, compared with a name. -/
def matchExtension (raw : Nat → UInt8) : List UInt8 → (length : Nat) → Option Nat
  | [], length => some length
  | char :: rest, length =>
      if length = 3 ∨ fatUpper char ≠ raw (8 + length) then none
      else matchExtension raw rest (length + 1)

/-- A name is filled up with blanks between two positions. -/
def blank (raw : Nat → UInt8) (start stop : Nat) : Bool :=
  (List.range' start (stop - start)).all fun index => raw index = 32

/-- `fat32_name_matches`. -/
def nameMatches (path : List UInt8) (raw : Nat → UInt8) : Bool :=
  match matchBase raw path 0 with
  | none => false
  | some (length, rest) =>
      if length = 0 || !blank raw length 8 then false
      else
        match matchExtension raw (rest.drop 1) 0 with
        | none => false
        | some length => blank raw (8 + length) 11

/-- `file_t`. -/
structure File where
  cluster : Nat
  size : Nat
  pos : Nat
  dirCluster : Nat
  dirSector : Nat
  dirIndex : Nat
  deriving DecidableEq, Repr

/-- What a look at a part of a directory comes to. -/
inductive Scan where
  | failed
  | missing
  | found (file : File)
  deriving DecidableEq, Repr

/-- The loop of `fs_open` over the entries of a sector.  The first unused entry ends it. -/
def findEntry (path : List UInt8) (buffer : ByteMemory) : (remaining index : Nat) → Option Nat
  | 0, _ => none
  | remaining + 1, index =>
      if buffer (32 * index) = 0 then none
      else if buffer (32 * index) = 0xE5 ∨ buffer (32 * index + 11) &&& 0x18 ≠ 0 ∨
          !nameMatches path (fun offset => buffer (32 * index + offset)) then
        findEntry path buffer remaining (index + 1)
      else some index

/-- The loop of `fs_open` over the sectors of a cluster. -/
def scanSectors (path : List UInt8) (cluster sector : Nat) :
    (remaining s : Nat) → Drive → Scan × Drive
  | 0, _, drive => (.missing, drive)
  | remaining + 1, s, drive =>
      match ataReadSector drive ((sector + s) % 2 ^ 32) with
      | (none, drive) => (.failed, drive)
      | (some buffer, drive) =>
          match findEntry path buffer 16 0 with
          | none => scanSectors path cluster sector remaining (s + 1) drive
          | some index =>
              (.found
                { cluster := buffer.readLE (32 * index + 20) 2 * 2 ^ 16 +
                    buffer.readLE (32 * index + 26) 2
                  size := buffer.readLE (32 * index + 28) 4
                  pos := 0
                  dirCluster := cluster
                  dirSector := s
                  dirIndex := index }, drive)

/-- The sectors of a cluster do not all lie on the volume. -/
def offVolume (volume : Volume) (sector : Nat) : Bool :=
  sector = noSector || volume.totalSectors32 ≤ sector ||
    volume.totalSectors32 - sector < volume.sectorsPerCluster

/-- The loop of `fs_open` over the clusters of the root directory. -/
def openLoop (volume : Volume) (path : List UInt8) :
    (remaining cluster : Nat) → Drive → Option File × Drive
  | 0, _, drive => (none, drive)
  | remaining + 1, cluster, drive =>
      if !clusterValid volume cluster then (none, drive)
      else if offVolume volume (clusterToSector volume cluster) then (none, drive)
      else
        match scanSectors path cluster (clusterToSector volume cluster)
            volume.sectorsPerCluster 0 drive with
        | (.failed, drive) => (none, drive)
        | (.found file, drive) => (some file, drive)
        | (.missing, drive) =>
            match nextCluster volume drive cluster with
            | (next, drive) =>
                if next = endOfChain then (none, drive)
                else openLoop volume path remaining next drive

/-- The path without the slashes before it. -/
def relative (path : List UInt8) : List UInt8 := path.dropWhile (· = 47)

/-- `fs_open`. -/
def fsOpen (volume : Volume) (path : List UInt8) (drive : Drive) : Option File × Drive :=
  if !volume.mounted then (none, drive)
  else openLoop volume (relative path) volume.totalClusters volume.rootCluster drive

/-- The size of a cluster in bytes. -/
def clusterSize (volume : Volume) : Nat := volume.sectorsPerCluster * sectorSize

/-- The loop of `fs_read` to the cluster of the position. -/
def skipRead (volume : Volume) : (count cluster : Nat) → Drive → Option Nat × Drive
  | 0, cluster, drive => (some cluster, drive)
  | count + 1, cluster, drive =>
      match nextCluster volume drive cluster with
      | (next, drive) =>
          if next < 2 ∨ 0x0FFFFFF8 ≤ next then (none, drive)
          else skipRead volume count next drive

/-- The loop of `fs_read` over sectors, with the bytes read so far.  Every round reads a byte
at least, so that `size` rounds are enough. -/
def readLoop (volume : Volume) (size : Nat) : (fuel cluster offset : Nat) → (file : File) →
    List UInt8 → Drive → Option (List UInt8) × File × Drive
  | 0, _, _, file, bytes, drive => (some bytes, file, drive)
  | fuel + 1, cluster, offset, file, bytes, drive =>
      if size ≤ bytes.length ∨ !clusterValid volume cluster then (some bytes, file, drive)
      else
        let clusterSector := clusterToSector volume cluster
        let sector := (clusterSector + offset / sectorSize) % 2 ^ 32
        if clusterSector = noSector ∨ volume.totalSectors32 ≤ clusterSector ∨
            volume.sectorsPerCluster ≤ offset / sectorSize ∨ volume.totalSectors32 ≤ sector then
          (none, file, drive)
        else
          match ataReadSector drive sector with
          | (none, drive) => (none, file, drive)
          | (some buffer, drive) =>
              let toRead := min (size - bytes.length) (sectorSize - offset % sectorSize)
              let bytes := bytes ++ buffer.loadBytes (offset % sectorSize) toRead
              let file := { file with pos := (file.pos + toRead) % 2 ^ 32 }
              let offset := offset + toRead
              if clusterSize volume ≤ offset then
                match nextCluster volume drive cluster with
                | (next, drive) => readLoop volume size fuel next 0 file bytes drive
              else readLoop volume size fuel cluster offset file bytes drive

/-- `fs_read`: the bytes that are read, or nothing after an error. -/
def fsRead (volume : Volume) (file : File) (size : Nat) (drive : Drive) :
    Option (List UInt8) × File × Drive :=
  if !volume.mounted then (none, file, drive)
  else if file.size ≤ file.pos then (some [], file, drive)
  else
    let size := min size (file.size - file.pos)
    if !clusterValid volume file.cluster then (none, file, drive)
    else
      match skipRead volume (file.pos / clusterSize volume) file.cluster drive with
      | (none, drive) => (none, file, drive)
      | (some cluster, drive) =>
          readLoop volume size size cluster (file.pos % clusterSize volume) file [] drive

/-! ## Writing -/

/-- The loop of `fs_extend` to the last cluster of a chain. -/
def lastCluster (volume : Volume) : (count cluster : Nat) → Drive → Option Nat × Drive
  | 0, cluster, drive => (some cluster, drive)
  | count + 1, cluster, drive =>
      match fatGet volume drive cluster with
      | (next, drive) =>
          if !clusterValid volume next then (none, drive)
          else lastCluster volume count next drive

/-- The loop of `fs_extend` that appends clusters to a chain. -/
def appendClusters (volume : Volume) : (count previous : Nat) → Drive → Bool × Drive
  | 0, _, drive => (true, drive)
  | count + 1, previous, drive =>
      match fatAllocCluster volume drive with
      | (none, drive) => (false, drive)
      | (some next, drive) =>
          match fatSet volume drive previous next with
          | (false, drive) => (false, drive)
          | (true, drive) => appendClusters volume count next drive

/-- The first cluster of an empty file, which is allocated if it has none. -/
def firstCluster (volume : Volume) (file : File) (drive : Drive) :
    Option Nat × File × Drive :=
  if clusterValid volume file.cluster then (some file.cluster, file, drive)
  else
    match fatAllocCluster volume drive with
    | (none, drive) => (none, file, drive)
    | (some cluster, drive) => (some cluster, { file with cluster }, drive)

/-- `fs_extend`. -/
def fsExtend (volume : Volume) (file : File) (neededBytes : Nat) (drive : Drive) :
    Bool × File × Drive :=
  let size := clusterSize volume
  if size = 0 ∨ 0xFFFFFFFF - file.pos < neededBytes then (false, file, drive)
  else
    let currentClusters := (file.size + size - 1) / size
    let targetClusters := (file.pos + neededBytes + size - 1) / size
    if volume.totalClusters < targetClusters then (false, file, drive)
    else if currentClusters = 0 then
      match firstCluster volume file drive with
      | (none, file, drive) => (false, file, drive)
      | (some previous, file, drive) =>
          match appendClusters volume (targetClusters - 1) previous drive with
          | (ok, drive) => (ok, file, drive)
    else if !clusterValid volume file.cluster then (false, file, drive)
    else
      match lastCluster volume (currentClusters - 1) file.cluster drive with
      | (none, drive) => (false, file, drive)
      | (some previous, drive) =>
          match appendClusters volume (targetClusters - currentClusters) previous drive with
          | (ok, drive) => (ok, file, drive)

/-- `fs_update_dir_entry`. -/
def fsUpdateDirEntry (volume : Volume) (file : File) (drive : Drive) : Bool × Drive :=
  if file.dirCluster = 0 then (false, drive)
  else
    patchSector drive ((clusterToSector volume file.dirCluster + file.dirSector) % 2 ^ 32)
      (32 * file.dirIndex + 28) 4 file.size

/-- The loop of `fs_write` to the cluster of the position. -/
def skipWrite (volume : Volume) : (count cluster : Nat) → Drive → Option Nat × Drive
  | 0, cluster, drive => (some cluster, drive)
  | count + 1, cluster, drive =>
      match fatGet volume drive cluster with
      | (next, drive) =>
          if next < 2 ∨ 0x0FFFFFF8 ≤ next then (none, drive)
          else skipWrite volume count next drive

/-- What `fs_write` returns when it cannot go on. -/
def partly (written : Nat) : Option Nat := if written = 0 then none else some written

/-- The bytes of a sector with which a write begins: those on the disk when it starts inside
the sector, and zeros otherwise. -/
def sectorBefore (drive : Drive) (sector offset : Nat) : Option ByteMemory × Drive :=
  if offset % sectorSize = 0 then (some fun _ => 0, drive) else ataReadSector drive sector

/-- The inner loop of `fs_write` over sectors.  Every round writes a byte at least.  The
directory entry is only updated when all bytes are written. -/
def writeLoop (volume : Volume) (bytes : List UInt8) : (fuel cluster offset written : Nat) →
    (file : File) → Drive → Option Nat × File × Drive
  | 0, _, _, written, file, drive => (some written, file, drive)
  | fuel + 1, cluster, offset, written, file, drive =>
      if bytes.length ≤ written then
        (some written, file, (fsUpdateDirEntry volume file drive).2)
      else
        let clusterSector := clusterToSector volume cluster
        let sector := (clusterSector + offset / sectorSize) % 2 ^ 32
        if !clusterValid volume cluster ∨ volume.sectorsPerCluster ≤ offset / sectorSize then
          (partly written, file, drive)
        else if clusterSector = noSector ∨ volume.totalSectors32 ≤ clusterSector ∨
            volume.totalSectors32 ≤ sector then
          (partly written, file, drive)
        else
          match sectorBefore drive sector offset with
          | (none, drive) => (none, file, drive)
          | (some buffer, drive) =>
              let toWrite := min (bytes.length - written) (sectorSize - offset % sectorSize)
              let content := (bytes.drop written).take toWrite
              match ataWriteSector drive sector
                  (buffer.storeBytes (offset % sectorSize) content) with
              | (false, drive) => (none, file, drive)
              | (true, drive) =>
                  let written := written + toWrite
                  let pos := (file.pos + toWrite) % 2 ^ 32
                  let file := { file with pos, size := max file.size pos }
                  let offset := offset + toWrite
                  if clusterSize volume ≤ offset then
                    if written < bytes.length then
                      match fatGet volume drive cluster with
                      | (next, drive) =>
                          if !clusterValid volume next then (partly written, file, drive)
                          else writeLoop volume bytes fuel next 0 written file drive
                    else writeLoop volume bytes fuel cluster 0 written file drive
                  else writeLoop volume bytes fuel cluster offset written file drive

/-- `fs_write`: how many bytes were written, or nothing after an error. -/
def fsWrite (volume : Volume) (file : File) (bytes : List UInt8) (drive : Drive) :
    Option Nat × File × Drive :=
  if !volume.mounted ∨ bytes = [] then (none, file, drive)
  else
    match fsExtend volume file bytes.length drive with
    | (false, file, drive) => (none, file, drive)
    | (true, file, drive) =>
        match skipWrite volume (file.pos / clusterSize volume) file.cluster drive with
        | (none, drive) => (none, file, drive)
        | (some cluster, drive) =>
            writeLoop volume bytes (bytes.length + 1) cluster
              (file.pos % clusterSize volume) 0 file drive

section Reading

variable {volume : Volume} {drive : Drive}

@[simp] theorem ataReadSector_sectors (drive : Drive) (lba : Nat) :
    (ataReadSector drive lba).2.sectors = drive.sectors := by
  unfold ataReadSector
  split <;> rfl

@[simp] theorem nextCluster_sectors (cluster : Nat) :
    (nextCluster volume drive cluster).2.sectors = drive.sectors := by
  unfold nextCluster
  split
  · rfl
  split
  · rfl
  have kept := ataReadSector_sectors drive (fatSector volume cluster)
  generalize ataReadSector drive (fatSector volume cluster) = result at kept ⊢
  rcases result with ⟨_ | buffer, drive'⟩
  · exact kept
  · dsimp only
    split
    · exact kept
    · exact kept

theorem scanSectors_sectors {path : List UInt8} {cluster sector remaining s : Nat} :
    (scanSectors path cluster sector remaining s drive).2.sectors = drive.sectors := by
  induction remaining generalizing s drive with
  | zero => rfl
  | succ remaining ih =>
  unfold scanSectors
  have kept := ataReadSector_sectors drive ((sector + s) % 2 ^ 32)
  generalize ataReadSector drive ((sector + s) % 2 ^ 32) = result at kept ⊢
  rcases result with ⟨_ | buffer, drive'⟩
  · exact kept
  · dsimp only
    split
    · exact ih.trans kept
    · exact kept

theorem openLoop_sectors {path : List UInt8} {remaining cluster : Nat} :
    (openLoop volume path remaining cluster drive).2.sectors = drive.sectors := by
  induction remaining generalizing cluster drive with
  | zero => rfl
  | succ remaining ih =>
  unfold openLoop
  split
  · rfl
  split
  · rfl
  have scanned := @scanSectors_sectors drive path cluster (clusterToSector volume cluster)
    volume.sectorsPerCluster 0
  generalize scanSectors path cluster (clusterToSector volume cluster)
    volume.sectorsPerCluster 0 drive = result at scanned ⊢
  rcases result with ⟨_ | _ | file, drive'⟩
  · exact scanned
  · dsimp only
    split
    · exact (nextCluster_sectors cluster).trans scanned
    · exact (ih.trans (nextCluster_sectors cluster)).trans scanned
  · exact scanned

theorem fsOpen_sectors (path : List UInt8) :
    (fsOpen volume path drive).2.sectors = drive.sectors := by
  unfold fsOpen
  split
  · rfl
  · exact openLoop_sectors

theorem skipRead_sectors {count cluster : Nat} :
    (skipRead volume count cluster drive).2.sectors = drive.sectors := by
  induction count generalizing cluster drive with
  | zero => rfl
  | succ count ih =>
      unfold skipRead
      dsimp only
      split
      · exact nextCluster_sectors cluster
      · exact ih.trans (nextCluster_sectors cluster)

theorem readLoop_sectors {size fuel cluster offset : Nat} {file : File} {bytes : List UInt8} :
    (readLoop volume size fuel cluster offset file bytes drive).2.2.sectors = drive.sectors := by
  induction fuel generalizing cluster offset file bytes drive with
  | zero => rfl
  | succ fuel ih =>
  unfold readLoop
  split
  · rfl
  dsimp only
  split
  · rfl
  have kept := ataReadSector_sectors drive
    ((clusterToSector volume cluster + offset / sectorSize) % 2 ^ 32)
  generalize ataReadSector drive
    ((clusterToSector volume cluster + offset / sectorSize) % 2 ^ 32) = result at kept ⊢
  rcases result with ⟨_ | buffer, drive'⟩
  · exact kept
  · dsimp only
    split
    · exact (ih.trans (nextCluster_sectors cluster)).trans kept
    · exact ih.trans kept

theorem fsRead_sectors (file : File) (size : Nat) :
    (fsRead volume file size drive).2.2.sectors = drive.sectors := by
  unfold fsRead
  split
  · rfl
  split
  · rfl
  dsimp only
  split
  · rfl
  have skipped := @skipRead_sectors volume drive (file.pos / clusterSize volume) file.cluster
  generalize skipRead volume (file.pos / clusterSize volume) file.cluster drive = result
    at skipped ⊢
  rcases result with ⟨_ | cluster, drive'⟩
  · exact skipped
  · exact readLoop_sectors.trans skipped

end Reading

end Charis.Fs
