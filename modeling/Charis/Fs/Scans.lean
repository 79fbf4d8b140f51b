import Charis.Fs.CreateLaw

/-!
# The scans of the root directory

A directory ends at the first entry whose name starts with a zero byte.  `fs_create` stops
there, but compares the names of deleted entries too.  In `fs_open` such an entry only ends
the loop over its sector, so that what is left in later sectors is looked at as well.
-/

namespace Charis.Fs

open Charis.Lib

variable {volume : Volume} {disk : Nat → ByteMemory} {path : List UInt8}

/-- The entry does not end the directory. -/
def proceeds (disk : Nat → ByteMemory) (slot : Slot) : Bool :=
  disk slot.sector (32 * slot.index) ≠ 0

/-- The entry is deleted. -/
def deleted (disk : Nat → ByteMemory) (slot : Slot) : Bool :=
  disk slot.sector (32 * slot.index) = 0xE5

/-- The entry is a directory or a volume label, or a part of a long name. -/
def special (disk : Nat → ByteMemory) (slot : Slot) : Bool :=
  disk slot.sector (32 * slot.index + 11) &&& 0x18 ≠ 0

/-- The name of the entry matches. -/
def named (path : List UInt8) (disk : Nat → ByteMemory) (slot : Slot) : Bool :=
  nameMatches path fun offset => disk slot.sector (32 * slot.index + offset)

/-- The entry is that of a file with the name. -/
def fileNamed (path : List UInt8) (disk : Nat → ByteMemory) (slot : Slot) : Bool :=
  !deleted disk slot && !special disk slot && named path disk slot

/-- The entry is in use and has the name. -/
def liveNamed (path : List UInt8) (disk : Nat → ByteMemory) (slot : Slot) : Bool :=
  !deleted disk slot && named path disk slot

/-- The entries of the root directory, by sectors. -/
def rootBlocks (volume : Volume) (disk : Nat → ByteMemory) : List (List Slot) :=
  (rootClusters volume disk).flatMap fun cluster =>
    (List.range' 0 volume.sectorsPerCluster).map fun s =>
      slotsOf (clusterToSector volume cluster + s) 0 16

/-- The entries before the end of the directory. -/
def directory (volume : Volume) (disk : Nat → ByteMemory) : List Slot :=
  (rootBlocks volume disk).flatten.takeWhile (proceeds disk)

/-- The entries in the sectors behind the end of the directory, each sector up to its own
first zero entry. -/
def stale (volume : Volume) (disk : Nat → ByteMemory) : List Slot :=
  behindEnd (proceeds disk) (rootBlocks volume disk)

theorem rootBlocks_flatten : (rootBlocks volume disk).flatten = rootSlots volume disk := by
  rw [rootBlocks, rootSlots, slotsIn, ← List.flatMap_id, List.flatMap_assoc]
  apply List.flatMap_congr
  intro cluster _
  rw [List.flatMap_id, slotsFrom, List.flatMap_def]

/-- The entry that a file was opened from. -/
def File.slot (volume : Volume) (file : File) : Slot :=
  ⟨clusterToSector volume file.dirCluster + file.dirSector, file.dirIndex⟩

/-- The loop over a sector finds the first file with the name before the end. -/
theorem findEntry_eq (sector remaining index : Nat) :
    (findEntry path (disk sector) remaining index).map (Slot.mk sector) =
      ((slotsOf sector index remaining).takeWhile (proceeds disk)).find?
        (fileNamed path disk) := by
  induction remaining generalizing index with
  | zero => rfl
  | succ remaining ih =>
  rw [findEntry, slotsOf, List.range'_succ, List.map_cons]
  by_cases zero : disk sector (32 * index) = 0
  · simp [proceeds, zero]
  have goes_on : proceeds disk ⟨sector, index⟩ = true := by simpa [proceeds] using zero
  rw [if_neg zero, List.takeWhile_cons_of_pos goes_on, List.find?_cons]
  by_cases other : disk sector (32 * index) = 0xE5 ∨
      disk sector (32 * index + 11) &&& 0x18 ≠ 0 ∨
      (!nameMatches path fun offset => disk sector (32 * index + offset)) = true
  · have apart : fileNamed path disk ⟨sector, index⟩ = false := by
      simp only [fileNamed, deleted, special, named, Bool.and_eq_false_iff]
      rcases other with gone | odd | unlike
      · simp [gone]
      · simp [odd]
      · simp only [Bool.not_eq_true'] at unlike
        exact .inr unlike
    rw [if_pos other, apart]
    exact ih (index + 1)
  · have hit : fileNamed path disk ⟨sector, index⟩ = true := by
      simp only [not_or, not_not, Bool.not_eq_true', Bool.not_eq_false] at other
      simp [fileNamed, deleted, special, named, other]
    rw [if_neg other, hit]
    rfl

theorem fileIn_slot (cluster s : Nat) :
    (fileIn volume path disk cluster s).map (File.slot volume) =
      ((slotsOf (clusterToSector volume cluster + s) 0 16).takeWhile (proceeds disk)).find?
        (fileNamed path disk) := by
  rw [← findEntry_eq, fileIn, Option.map_map]
  rfl

theorem fsOpen_slot {drive : Drive} (geometry : Geometry volume) (ready : drive.Ready) :
    (fsOpen volume path drive).1.map (File.slot volume) =
      (directory volume drive.shown ++ stale volume drive.shown).find?
        (fileNamed (relative path) drive.shown) := by
  obtain ⟨drive', opened, -⟩ := @fsOpen_eq volume path drive geometry ready
  rw [opened, directory, stale, ← flatMap_takeWhile, rootBlocks, List.map_findSome?,
    List.flatMap_assoc, List.find?_flatMap]
  apply congrArg (List.findSome? · (rootClusters volume drive.shown))
  funext cluster
  rw [Function.comp_apply, List.map_findSome?, List.flatMap_map, List.find?_flatMap]
  apply congrArg (List.findSome? · (List.range' 0 volume.sectorsPerCluster))
  funext s
  exact fileIn_slot cluster s

/-- The search fails at the first entry with the name, deleted or not. -/
theorem searchSlots_failed_iff {slots : List Slot} {free : Option Slot} :
    searchSlots path disk slots free = .failed ↔
      ∃ slot ∈ slots.takeWhile (proceeds disk), named path disk slot = true := by
  induction slots generalizing free with
  | nil => simp [searchSlots]
  | cons slot rest ih =>
  rw [searchSlots]
  by_cases zero : disk slot.sector (32 * slot.index) = 0
  · simp [proceeds, zero]
  · have goes_on : proceeds disk slot = true := by simpa [proceeds] using zero
    rw [if_neg zero, List.takeWhile_cons_of_pos goes_on, List.exists_mem_cons_iff]
    dsimp only
    split
    · next same => simp [named, same]
    · next other =>
      rw [ih]
      simp [named, other]

/-- `fs_create` refuses the path because an entry has the name. -/
def RefusesName (volume : Volume) (path : List UInt8) (drive : Drive) : Prop :=
  (searchRoot volume (relative path) volume.totalClusters volume.rootCluster none drive).1 =
    .failed

theorem refusesName_iff {drive : Drive} (geometry : Geometry volume) (ready : drive.Ready) :
    RefusesName volume path drive ↔
      ∃ slot ∈ directory volume drive.shown,
        named (relative path) drive.shown slot = true := by
  obtain ⟨drive', searched, -⟩ := @searchRoot_eq volume drive (relative path) volume.rootCluster
    geometry ready volume.totalClusters none
  rw [RefusesName, searched, searchSlots_failed_iff, directory, rootBlocks_flatten]
  rfl

/-- Both scans look at the directory: `fs_open` finds the first file with the name in it, and
`fs_create` refuses the path just if an entry in use has the name. -/
structure ScansDirectory (volume : Volume) (path : List UInt8) (drive : Drive) : Prop where
  opens : (fsOpen volume path drive).1.map (File.slot volume) =
    (directory volume drive.shown).find? (fileNamed (relative path) drive.shown)
  refuses : RefusesName volume path drive ↔
    ∃ slot ∈ directory volume drive.shown,
      liveNamed (relative path) drive.shown slot = true

/-- No file with the name is left behind the end of the directory, unless one is in it, and no
deleted entry has the name, unless one in use has it. -/
structure NoRemains (volume : Volume) (path : List UInt8) (disk : Nat → ByteMemory) : Prop where
  behind : (∃ slot ∈ directory volume disk, fileNamed (relative path) disk slot = true) ∨
    ∀ slot ∈ stale volume disk, fileNamed (relative path) disk slot = false
  removed : (∃ slot ∈ directory volume disk, liveNamed (relative path) disk slot = true) ∨
    ∀ slot ∈ directory volume disk, deleted disk slot = true →
      named (relative path) disk slot = false

/-- The scans agree with the directory exactly if nothing with the name remains elsewhere. -/
theorem scans_directory_iff {drive : Drive} (mounted : Mounted volume) (ready : drive.Ready) :
    ScansDirectory volume path drive ↔ NoRemains volume path drive.shown := by
  have geometry := mounted.geometry
  have opened := @fsOpen_slot volume path drive geometry ready
  have refused := @refusesName_iff volume path drive geometry ready
  rw [List.find?_append] at opened
  constructor
  · intro scans
    constructor
    · have same := scans.opens
      rw [opened] at same
      cases first : (directory volume drive.shown).find?
          (fileNamed (relative path) drive.shown) with
      | some slot =>
          left
          exact ⟨slot, List.mem_of_find?_eq_some first, List.find?_some first⟩
      | none =>
          right
          rw [first, Option.none_or] at same
          intro slot member
          simpa using List.find?_eq_none.mp same slot member
    · by_cases live : ∃ slot ∈ directory volume drive.shown,
          liveNamed (relative path) drive.shown slot = true
      · exact .inl live
      · right
        intro slot member _
        by_contra hit
        apply live
        apply scans.refuses.mp
        exact refused.mpr ⟨slot, member, by simpa using hit⟩
  intro clean
  constructor
  · rw [opened]
    rcases clean.behind with ⟨slot, member, hit⟩ | none
    · cases first : (directory volume drive.shown).find?
          (fileNamed (relative path) drive.shown) with
      | some found => rfl
      | none => exact absurd hit (List.find?_eq_none.mp first slot member)
    · have rest : (stale volume drive.shown).find?
          (fileNamed (relative path) drive.shown) = Option.none := by
        apply List.find?_eq_none.mpr
        intro slot member
        rw [none slot member]
        exact Bool.false_ne_true
      rw [rest, Option.or_none]
  rw [refused]
  constructor
  · rintro ⟨slot, member, hit⟩
    rcases clean.removed with live | none
    · exact live
    · refine ⟨slot, member, ?_⟩
      have kept : deleted drive.shown slot = false := by
        by_contra gone
        rw [none slot member (by simpa using gone)] at hit
        cases hit
      rw [liveNamed, kept, hit]
      rfl
  · rintro ⟨slot, member, live⟩
    exact ⟨slot, member, (Bool.and_eq_true_iff.mp live).2⟩

/-- The small volume with a file and a deleted entry of its name before it. -/
def listedDrive : Drive where
  sectors sector :=
    if sector = 2 then
      ByteMemory.storeBytes (fun _ => 0) 0 [0xE5, 32, 32, 32, 32, 32, 32, 32, 84, 88, 84, 32]
        |>.storeBytes 32 [65, 32, 32, 32, 32, 32, 32, 32, 84, 88, 84, 32]
    else smallDrive.sectors sector
  outcome _ := .done

/-- The file is found, and its name is refused. -/
theorem scans_directory_iff_listed :
    ScansDirectory smallVolume shortPath listedDrive ∧
      RefusesName smallVolume shortPath listedDrive := by
  have listed : ∃ slot ∈ directory smallVolume listedDrive.shown,
      fileNamed (relative shortPath) listedDrive.shown slot = true := by decide +kernel
  have live : ∃ slot ∈ directory smallVolume listedDrive.shown,
      liveNamed (relative shortPath) listedDrive.shown slot = true := by decide +kernel
  have scans := (scans_directory_iff smallVolume_mounted fun _ _ => rfl).mpr
    ⟨.inl listed, .inl live⟩
  exact ⟨scans, scans.refuses.mpr live⟩

/-- A volume with clusters of two sectors.  The first entry of the root directory ends it, and
the second sector begins with the entry of a file. -/
def staleDrive : Drive where
  sectors sector :=
    if sector = 0 then ByteMemory.writeLE smallBoot 13 1 2
    else if sector = 1 then ByteMemory.writeLE (fun _ => 0) 8 4 endOfChain
    else if sector = 3 then
      ByteMemory.storeBytes (fun _ => 0) 0 [65, 32, 32, 32, 32, 32, 32, 32, 84, 88, 84, 32]
    else fun _ => 0
  outcome _ := .done

def staleVolume : Volume := (fsInit staleDrive).1

/-- The file is opened, though the directory is empty. -/
theorem stale_file_opened :
    Mounted staleVolume ∧ directory staleVolume staleDrive.shown = [] ∧
      (fsOpen staleVolume shortPath staleDrive).1.isSome = true ∧
      ¬ ScansDirectory staleVolume shortPath staleDrive := by
  have empty : directory staleVolume staleDrive.shown = [] := by decide
  have opened : (fsOpen staleVolume shortPath staleDrive).1.isSome = true := by decide
  refine ⟨⟨rfl, staleDrive, rfl⟩, empty, opened, ?_⟩
  intro scans
  have nothing := scans.opens
  rw [empty, List.find?_nil, Option.map_eq_none_iff] at nothing
  rw [nothing] at opened
  cases opened

end Charis.Fs
