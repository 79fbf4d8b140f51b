import Charis.Fs.FileContents

/-!
# Creating files

A file is created in the first unused entry of the root directory, or in the first deleted one
if there is no unused one.  The name of the entry is cut from the path, and `fs_open` compares
a path with such a name on its own.
-/

namespace Charis.Fs

open Charis.Lib

/-- `free_sector` and `free_index`. -/
structure Slot where
  sector : Nat
  index : Nat
  deriving DecidableEq, Repr

/-- What a search of `fs_create` comes to: an error or an entry with the name, an unused entry,
or nothing but the first deleted entry. -/
inductive Search where
  | failed
  | stopped (slot : Slot)
  | going (free : Option Slot)
  deriving DecidableEq, Repr

/-- The loop of `fs_create` over the entries of a sector. -/
def searchEntries (path : List UInt8) (sector : Nat) (buffer : ByteMemory) :
    (remaining index : Nat) → Option Slot → Search
  | 0, _, free => .going free
  | remaining + 1, index, free =>
      if buffer (32 * index) = 0 then .stopped ⟨sector, index⟩
      else
        let free := if buffer (32 * index) = 0xE5 ∧ free = none then some ⟨sector, index⟩ else free
        if nameMatches path (fun offset => buffer (32 * index + offset)) then .failed
        else searchEntries path sector buffer remaining (index + 1) free

/-- The loop of `fs_create` over the sectors of a cluster. -/
def searchSectors (path : List UInt8) (sector : Nat) :
    (remaining s : Nat) → Option Slot → Drive → Search × Drive
  | 0, _, free, drive => (.going free, drive)
  | remaining + 1, s, free, drive =>
      match ataReadSector drive ((sector + s) % 2 ^ 32) with
      | (none, drive) => (.failed, drive)
      | (some buffer, drive) =>
          match searchEntries path ((sector + s) % 2 ^ 32) buffer 16 0 free with
          | .going free => searchSectors path sector remaining (s + 1) free drive
          | result => (result, drive)

/-- The loop of `fs_create` over the clusters of the root directory, and its test of what was
found. -/
def searchLoop (volume : Volume) (path : List UInt8) :
    (remaining cluster : Nat) → Option Slot → Drive → Option Slot × Drive
  | 0, _, free, drive => (free, drive)
  | remaining + 1, cluster, free, drive =>
      if !clusterValid volume cluster then (free, drive)
      else if offVolume volume (clusterToSector volume cluster) then (none, drive)
      else
        match searchSectors path (clusterToSector volume cluster)
            volume.sectorsPerCluster 0 free drive with
        | (.failed, drive) => (none, drive)
        | (.stopped slot, drive) => (some slot, drive)
        | (.going free, drive) =>
            match nextCluster volume drive cluster with
            | (next, drive) =>
                if next = endOfChain then (free, drive)
                else searchLoop volume path remaining next free drive

/-- The same loop with the way it ends, before the test of what was found. -/
def searchRoot (volume : Volume) (path : List UInt8) :
    (remaining cluster : Nat) → Option Slot → Drive → Search × Drive
  | 0, _, free, drive => (.going free, drive)
  | remaining + 1, cluster, free, drive =>
      if !clusterValid volume cluster then (.going free, drive)
      else if offVolume volume (clusterToSector volume cluster) then (.failed, drive)
      else
        match searchSectors path (clusterToSector volume cluster)
            volume.sectorsPerCluster 0 free drive with
        | (.failed, drive) => (.failed, drive)
        | (.stopped slot, drive) => (.stopped slot, drive)
        | (.going free, drive) =>
            match nextCluster volume drive cluster with
            | (next, drive) =>
                if next = endOfChain then (.going free, drive)
                else searchRoot volume path remaining next free drive

/-- The slot that a search leads to. -/
def Search.slot : Search → Option Slot
  | .failed => none
  | .stopped slot => some slot
  | .going free => free

theorem searchLoop_searchRoot (volume : Volume) (path : List UInt8) (remaining cluster : Nat)
    (free : Option Slot) (drive : Drive) :
    searchLoop volume path remaining cluster free drive =
      ((searchRoot volume path remaining cluster free drive).1.slot,
        (searchRoot volume path remaining cluster free drive).2) := by
  induction remaining generalizing cluster free drive with
  | zero => rfl
  | succ remaining ih =>
  rw [searchLoop, searchRoot]
  split
  · rfl
  split
  · rfl
  rcases searchSectors path (clusterToSector volume cluster) volume.sectorsPerCluster 0 free
    drive with ⟨_ | slot | free, drive⟩
  · rfl
  · rfl
  · dsimp only
    split
    · rfl
    · exact ih _ _ _

/-- The name of an entry as `fs_create` builds it from a path. -/
def shortName (path : List UInt8) : List UInt8 :=
  let base := (path.takeWhile (· ≠ 46)).take 8
  let rest := path.drop base.length
  let extension := if rest.head? = some 46 then (rest.drop 1).take 3 else []
  base.map fatUpper ++ List.replicate (8 - base.length) 32 ++
    (extension.map fatUpper ++ List.replicate (3 - extension.length) 32)

/-- A sector with a new entry. -/
def newEntry (path : List UInt8) (cluster : Nat) (buffer : ByteMemory) (index : Nat) :
    ByteMemory :=
  buffer.fill (32 * index) 32 0
    |>.storeBytes (32 * index) (shortName path)
    |>.writeByte (32 * index + 11) 0x20
    |>.writeLE (32 * index + 26) 2 (cluster % 2 ^ 16)
    |>.writeLE (32 * index + 20) 2 (cluster / 2 ^ 16)

/-- The slot that `fs_create` takes for a path. -/
def findSlot (volume : Volume) (path : List UInt8) (drive : Drive) : Option Slot × Drive :=
  searchLoop volume (relative path) volume.totalClusters volume.rootCluster none drive

/-- `fs_create`. -/
def fsCreate (volume : Volume) (path : List UInt8) (drive : Drive) : Bool × Drive :=
  if !volume.mounted ∨ path = [] then (false, drive)
  else
    match findSlot volume path drive with
    | (none, drive) => (false, drive)
    | (some slot, drive) =>
        match fatAllocCluster volume drive with
        | (none, drive) => (false, drive)
        | (some cluster, drive) =>
            match ataReadSector drive slot.sector with
            | (none, drive) => (false, drive)
            | (some buffer, drive) =>
                match ataWriteSector drive slot.sector
                    (newEntry (relative path) cluster buffer slot.index) with
                | (true, drive) => (true, drive)
                | (false, drive) => (false, (fatSet volume drive cluster 0).2)

section Names

variable {path : List UInt8} {raw : ByteMemory}

/-- The part of a path before a dot. -/
def baseName (path : List UInt8) : List UInt8 := path.takeWhile (· ≠ 46)

/-- The part of a path behind its first dot. -/
def extensionName (path : List UInt8) : List UInt8 := (path.dropWhile (· ≠ 46)).drop 1

/-- A name that fits into a directory entry. -/
structure FitsEntry (path : List UInt8) : Prop where
  base : baseName path ≠ []
  short : (baseName path).length ≤ 8
  extension : (extensionName path).length ≤ 3

theorem matchBase_eq_some {length : Nat} (start : length ≤ 8)
    {result : Nat × List UInt8} :
    matchBase raw path length = some result ↔
      result = (length + (baseName path).length, path.dropWhile (· ≠ 46)) ∧
        length + (baseName path).length ≤ 8 ∧
        raw.loadBytes length (baseName path).length = (baseName path).map fatUpper := by
  induction path generalizing length with
  | nil =>
      simp [matchBase, baseName, ByteMemory.loadBytes, start, eq_comm]
  | cons char rest ih =>
  rw [matchBase]
  split
  next dot =>
    simp [baseName, dot, ByteMemory.loadBytes, start, eq_comm]
  next no_dot =>
    have base : baseName (char :: rest) = char :: baseName rest := by
      simp [baseName, no_dot]
    have behind : (char :: rest).dropWhile (· ≠ 46) = rest.dropWhile (· ≠ 46) := by
      simp [no_dot]
    rw [base, behind, List.length_cons, ByteMemory.loadBytes, List.map_cons,
      List.cons.injEq]
    split
    next stops =>
      apply iff_of_false (by simp)
      rintro ⟨-, fits, first, -⟩
      cases stops with
      | inl full => omega
      | inr differs => exact differs first.symm
    next goes_on =>
      rw [not_or, not_not] at goes_on
      rw [ih (by omega), Nat.add_right_comm, ← Nat.add_assoc]
      constructor
      · rintro ⟨same, fits, rest⟩
        exact ⟨same, fits, goes_on.2.symm, rest⟩
      · rintro ⟨same, fits, -, rest⟩
        exact ⟨same, fits, rest⟩

theorem matchExtension_eq_some {length : Nat} (start : length ≤ 3) {result : Nat} :
    matchExtension raw path length = some result ↔
      result = length + path.length ∧ length + path.length ≤ 3 ∧
        raw.loadBytes (8 + length) path.length = path.map fatUpper := by
  induction path generalizing length with
  | nil => simp [matchExtension, ByteMemory.loadBytes, start, eq_comm]
  | cons char rest ih =>
  rw [matchExtension, List.length_cons, ByteMemory.loadBytes, List.map_cons,
    List.cons.injEq]
  split
  next stops =>
    apply iff_of_false (by simp)
    rintro ⟨-, fits, first, -⟩
    cases stops with
    | inl full => omega
    | inr differs => exact differs first.symm
  next goes_on =>
    rw [not_or, not_not] at goes_on
    rw [ih (by omega), Nat.add_right_comm, ← Nat.add_assoc, ← Nat.add_assoc]
    constructor
    · rintro ⟨same, fits, rest⟩
      exact ⟨same, fits, goes_on.2.symm, rest⟩
    · rintro ⟨same, fits, -, rest⟩
      exact ⟨same, fits, rest⟩

theorem blank_iff {start length : Nat} :
    blank raw start (start + length) = true ↔
      raw.loadBytes start length = List.replicate length 32 := by
  rw [blank, Nat.add_sub_cancel_left]
  induction length generalizing start with
  | zero => simp [ByteMemory.loadBytes]
  | succ length ih =>
      rw [List.range'_succ, List.all_cons, ByteMemory.loadBytes, List.replicate_succ,
        List.cons.injEq, ← ih, Bool.and_eq_true, decide_eq_true_eq]

theorem FitsEntry.shortName_eq (fits : FitsEntry path) :
    shortName path =
      (baseName path).map fatUpper ++ List.replicate (8 - (baseName path).length) 32 ++
        ((extensionName path).map fatUpper ++
          List.replicate (3 - (extensionName path).length) 32) := by
  have base : (path.takeWhile (· ≠ 46)).take 8 = baseName path :=
    List.take_of_length_le fits.short
  have rest : path.drop (baseName path).length = path.dropWhile (· ≠ 46) := by
    have cut : baseName path ++ path.dropWhile (· ≠ 46) = path :=
      List.takeWhile_append_dropWhile
    calc path.drop (baseName path).length
        = (baseName path ++ path.dropWhile (· ≠ 46)).drop (baseName path).length := by rw [cut]
      _ = path.dropWhile (· ≠ 46) := List.drop_left
  have extension : (if (path.dropWhile (· ≠ 46)).head? = some 46 then
      ((path.dropWhile (· ≠ 46)).drop 1).take 3 else []) = extensionName path := by
    split
    · exact List.take_of_length_le fits.extension
    next no_dot =>
      rw [extensionName]
      cases cut : path.dropWhile (· ≠ 46) with
      | nil => rfl
      | cons char behind =>
      exfalso
      apply no_dot
      have := List.head?_dropWhile_not (fun char : UInt8 => decide (char ≠ 46)) path
      rw [cut] at this
      rw [cut]
      simpa using this
  rw [shortName, base, rest, extension]

/-- The parts of a name that is built from a path that fits. -/
theorem FitsEntry.loadBytes_iff (fits : FitsEntry path) :
    raw.loadBytes 0 11 = shortName path ↔
      (raw.loadBytes 0 (baseName path).length = (baseName path).map fatUpper ∧
        blank raw (baseName path).length 8 = true) ∧
      raw.loadBytes 8 (extensionName path).length = (extensionName path).map fatUpper ∧
        blank raw (8 + (extensionName path).length) 11 = true := by
  have parts : ∀ {a b c d : List UInt8}, a.length = c.length →
      (a ++ b = c ++ d ↔ a = c ∧ b = d) := by
    intro a b c d length
    constructor
    · intro same
      exact List.append_inj same length
    · rintro ⟨rfl, rfl⟩
      rfl
  have whole : raw.loadBytes 0 11 =
      raw.loadBytes 0 (baseName path).length ++
          raw.loadBytes (baseName path).length (8 - (baseName path).length) ++
        (raw.loadBytes 8 (extensionName path).length ++
          raw.loadBytes (8 + (extensionName path).length)
            (3 - (extensionName path).length)) := by
    have first := raw.loadBytes_append 0 (baseName path).length (8 - (baseName path).length)
    have second := raw.loadBytes_append 8 (extensionName path).length
      (3 - (extensionName path).length)
    rw [Nat.add_sub_cancel' fits.short, Nat.zero_add] at first
    rw [Nat.add_sub_cancel' fits.extension] at second
    rw [← first, ← second]
    exact raw.loadBytes_append 0 8 3
  have base_blank := @blank_iff raw (baseName path).length (8 - (baseName path).length)
  have extension_blank := @blank_iff raw (8 + (extensionName path).length)
    (3 - (extensionName path).length)
  rw [Nat.add_sub_cancel' fits.short] at base_blank
  rw [Nat.add_assoc, Nat.add_sub_cancel' fits.extension] at extension_blank
  have short := fits.short
  rw [whole, fits.shortName_eq, parts, parts, parts, base_blank, extension_blank]
  · simp
  · simp
  · simp

theorem nameMatches_iff :
    nameMatches path raw = true ↔
      FitsEntry path ∧ raw.loadBytes 0 11 = shortName path := by
  rw [nameMatches]
  cases based : matchBase raw path 0 with
  | none =>
      apply iff_of_false Bool.false_ne_true
      rintro ⟨fits, named⟩
      have matched := (matchBase_eq_some (Nat.zero_le 8)).mpr
        ⟨rfl, by simpa using fits.short, (fits.loadBytes_iff.mp named).1.1⟩
      rw [based] at matched
      cases matched
  | some result =>
  obtain ⟨same, short, base_read⟩ := (matchBase_eq_some (Nat.zero_le 8)).mp based
  rw [Nat.zero_add] at same short
  rw [same]
  dsimp only
  split
  next refused =>
    apply iff_of_false Bool.false_ne_true
    rintro ⟨fits, named⟩
    have nonempty := fits.base
    have filled := (fits.loadBytes_iff.mp named).1.2
    simp [filled, nonempty] at refused
  next based_on =>
    simp only [Bool.or_eq_true, decide_eq_true_eq, not_or, Bool.not_eq_true',
      Bool.not_eq_false] at based_on
    have nonempty : baseName path ≠ [] := by
      intro empty
      rw [empty] at based_on
      exact based_on.1 rfl
    cases extended : matchExtension raw ((path.dropWhile (· ≠ 46)).drop 1) 0 with
    | none =>
        apply iff_of_false Bool.false_ne_true
        rintro ⟨fits, named⟩
        have matched := (matchExtension_eq_some (Nat.zero_le 3)).mpr
          ⟨rfl, by simpa using fits.extension, (fits.loadBytes_iff.mp named).2.1⟩
        rw [extensionName] at matched
        rw [extended] at matched
        cases matched
    | some length =>
    obtain ⟨same, fits_three, extension_read⟩ :=
      (matchExtension_eq_some (Nat.zero_le 3)).mp extended
    rw [Nat.zero_add] at same fits_three
    rw [same]
    dsimp only
    have fits : FitsEntry path := ⟨nonempty, short, fits_three⟩
    rw [fits.loadBytes_iff]
    constructor
    · intro filled
      exact ⟨fits, ⟨base_read, based_on.2⟩, extension_read, filled⟩
    · rintro ⟨-, -, -, filled⟩
      exact filled

end Names

end Charis.Fs
