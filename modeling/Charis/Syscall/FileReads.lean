import Charis.Fs.FileContents
import Charis.Syscall.Calls

/-!
# Reading a file

A task opens a file and reads it to the end in calls of any size.  Other calls may come in
between, as long as they leave the file and the descriptor alone.
-/

namespace Charis.Syscall

open Charis.Lib
open Charis.Fs
open Charis.Memory
open Charis.Exec
open Charis.Sched

/-- What happens to an open file. -/
inductive FileEvent where
  | read (count : Nat) (result : Int) (data : List UInt8)
  | other

/-- The bytes that are copied to the buffer of a task (`syscallRead_file`). -/
def FileEvent.data : FileEvent → List UInt8
  | .read _ _ data => data
  | .other => []

/-- The bytes that a task asks for. -/
def FileEvent.count : FileEvent → Nat
  | .read count _ _ => count
  | .other => 0

def returned (events : List FileEvent) : List UInt8 := events.flatMap FileEvent.data

def requested (events : List FileEvent) : Nat := (events.map FileEvent.count).sum

/-- The bytes that the read callback of a descriptor puts into the bounce buffer. -/
def bounced (os : Os) (t : TaskId) (fd : Int) (count : Nat) : List UInt8 :=
  match fdGet os t fd with
  | some ⟨some (.file _ size cluster), offset, _⟩ =>
      (fat32VfsRead os.volume size cluster offset count os.drive).1.getD []
  | _ => []

/-- Any bytes can be copied to a buffer. -/
def ValidBuffer (os : Os) (t : TaskId) (address size : Nat) : Prop :=
  ∀ bytes : List UInt8, bytes.length ≤ size → (copyOut os t address bytes).1 = true

/-- The steps after `open`: reads of the descriptor, and anything that leaves the descriptor
and the file alone. -/
inductive FileStep (t : TaskId) (fd : Int) (clusters : List Nat) : Os → FileEvent → Os → Prop
  | read {os : Os} {choice : Choice} {a1 a2 count : Nat} :
      int32 a1 = fd → 1 ≤ count → count ≤ syscallIoMax → choice.kmalloc count = true →
      ValidBuffer os t a2 count →
      FileStep t fd clusters os
        (.read count (syscallRead choice t a1 a2 count os).1 (bounced os t fd count))
        (syscallRead choice t a1 a2 count os).2
  | other {os os' : Os} :
      os'.volume = os.volume → SameFile os.volume clusters os.drive os'.drive →
      os'.drive.Ready → fdGet os' t fd = fdGet os t fd →
      FileStep t fd clusters os .other os'

/-- The file comes back: what is returned is its beginning, a call returns as much as it was
asked for or all that is left, and nothing only at the end. -/
structure ReadsFile (contents : List UInt8) (events : List FileEvent) : Prop where
  data : returned events <+: contents
  results : ∀ earlier count result data, earlier ++ [.read count result data] <+: events →
    result = data.length ∧ data.length = min count (contents.length - (returned earlier).length)
  atEnd : ∀ earlier count data, earlier ++ [.read count 0 data] <+: events →
    returned earlier = contents

section Opening

variable {choice : Choice} {t : TaskId} {a1 : Nat} {os os' : Os} {fd : Int} {name : List UInt8}
  {size cluster offset flags : Nat}

theorem fdGet_updateFd {number : Nat} {change : Descriptor → Descriptor} (below : number < 64) :
    fdGet (os.updateFd t number change) t number =
      some (change ((os.processes t).fds number)) := by
  rw [fdGet, if_pos (by omega)]
  simp only [Os.updateFd, Os.updateProcess, Function.update_self, Int.toNat_natCast]

theorem resolve_file {volume : Volume} {block : Bool} {path : List UInt8} {drive : Drive}
    (found : (resolve volume block path drive).1 = some (.file name size cluster)) :
    cluster < 2 ^ 32 ∧ size < 2 ^ 32 := by
  unfold resolve at found
  split at found
  · cases found
  split at found
  · next _ first rest _ =>
      have opened := @fsOpen_found volume drive (first :: rest)
      unfold fat32VfsFinddir at found
      generalize fsOpen volume (first :: rest) drive = result at found opened
      obtain ⟨file, drive'⟩ := result
      cases file with
      | none => cases found
      | some file =>
          dsimp only at found
          split at found
          · cases found
            exact opened rfl
          · cases found
  · cases found

theorem syscallOpen_file (opened : syscallOpen choice t a1 os = (fd, os')) (success : 0 ≤ fd)
    (file : fdGet os' t fd = some ⟨some (.file name size cluster), offset, flags⟩) :
    3 ≤ fd ∧ fd < 64 ∧ offset = 0 ∧ cluster < 2 ^ 32 ∧ size < 2 ^ 32 ∧ os'.volume = os.volume := by
  have failed {os'' : Os} (minus : ((-1 : Int), os'') = (fd, os')) : False := by
    cases minus
    cases success
  unfold syscallOpen at opened
  split at opened
  · exact (failed opened).elim
  split at opened
  · exact (failed opened).elim
  split at opened
  · exact (failed opened).elim
  next path _ =>
  have numbers := @resolve_file name size cluster os.volume (choice.kmalloc nodeSize) path os.drive
  generalize resolve os.volume (choice.kmalloc nodeSize) path os.drive = result
    at opened numbers
  obtain ⟨node, drive⟩ := result
  cases node with
  | none => exact (failed opened).elim
  | some node =>
  dsimp only at opened
  split at opened
  · exact (failed opened).elim
  unfold fdAlloc at opened
  split at opened
  · exact (failed opened).elim
  next number there =>
  have member := List.mem_range'_1.mp (List.mem_of_find?_eq_some there)
  cases opened
  rw [fdGet_updateFd (by omega)] at file
  cases file
  obtain ⟨smallCluster, smallSize⟩ := numbers rfl
  exact ⟨by omega, by omega, rfl, smallCluster, smallSize, rfl⟩

end Opening

section Reading

variable {choice : Choice} {t : TaskId} {a1 a2 count : Nat} {os os' : Os} {fd : Int}
  {name : List UInt8} {size cluster offset flags : Nat} {clusters : List Nat}

theorem fat32VfsRead_reads {volume : Volume} {drive : Drive} (geometry : Geometry volume)
    (chain : ClusterChain volume drive.sectors cluster size clusters) (ready : drive.Ready)
    (smallCluster : cluster < 2 ^ 32) (smallSize : size < 2 ^ 32) (inside : offset ≤ size)
    (count : Nat) :
    ∃ drive', fat32VfsRead volume size cluster offset count drive =
        (some (((contents volume drive.shown clusters size).drop offset).take count), drive') ∧
      drive'.sectors = drive.sectors ∧ drive'.Ready := by
  have sizeEq : size % 2 ^ 32 = size := Nat.mod_eq_of_lt smallSize
  have clusterEq : cluster % 2 ^ 32 = cluster := Nat.mod_eq_of_lt smallCluster
  have offsetEq : offset % 2 ^ 32 = offset := Nat.mod_eq_of_lt (by omega)
  obtain ⟨file', drive', read, ready'⟩ :=
    @fsRead_reads volume drive clusters geometry ⟨cluster, size, offset, 0, 0, 0⟩ chain ready count
  have same := @fsRead_sectors volume drive ⟨cluster, size, offset, 0, 0, 0⟩ count
  rw [read] at same
  refine ⟨drive', ?_, same, ready'⟩
  rw [fat32VfsRead, sizeEq, clusterEq, offsetEq, read]

/-- The bytes are copied, and the descriptor goes on. -/
theorem deliver_copies {bytes : List UInt8} (notStdin : 0 < fd) (most : bytes.length ≤ count)
    (buffer : ValidBuffer os t a2 count)
    (file : fdGet os t fd = some ⟨some (.file name size cluster), offset, flags⟩)
    (small : offset + bytes.length < 2 ^ 64) :
    (deliver os t fd a2 bytes).1 = bytes.length ∧
      (deliver os t fd a2 bytes).2.volume = os.volume ∧
      (deliver os t fd a2 bytes).2.drive = os.drive ∧
      fdGet (deliver os t fd a2 bytes).2 t fd =
        some ⟨some (.file name size cluster), offset + bytes.length, flags⟩ := by
  have copied := buffer bytes most
  unfold deliver copyOut at *
  generalize copyToUserData os.machine (os.processes t).mm.pml4 a2 (some bytes) bytes.length =
    result at copied ⊢
  obtain ⟨ok, machine⟩ := result
  dsimp only at copied
  subst copied
  split
  · next empty =>
      rw [empty]
      exact ⟨rfl, rfl, rfl, file⟩
  obtain ⟨number, rfl⟩ := Int.eq_ofNat_of_zero_le notStdin.le
  rw [fdGet] at file
  split at file
  · next below =>
      dsimp only
      rw [if_neg notStdin.ne', Int.toNat_natCast, fdGet_updateFd (by omega)]
      rw [Option.some.injEq, Int.toNat_natCast] at file
      rw [file]
      refine ⟨rfl, rfl, rfl, ?_⟩
      dsimp only
      rw [Nat.mod_eq_of_lt small]
  · cases file

/-- The bytes are those that the task could have stored itself. -/
theorem deliver_stores {bytes : List UInt8}
    (valid : WellFormed os.machine (os.processes t).mm.pml4)
    (clear : ClearOfTables os.machine.memory (os.processes t).mm.pml4 a2 bytes.length)
    (ordinary : ClearOfLargePages os.machine.memory (os.processes t).mm.pml4 a2 bytes.length)
    (buffer : ValidBuffer os t a2 bytes.length) :
    ringThreeStores os.machine.memory (os.processes t).mm.pml4 a2 bytes os.machine.memory =
      some (deliver os t fd a2 bytes).2.machine.memory := by
  have copied := buffer bytes le_rfl
  unfold deliver copyOut at *
  split
  · next empty =>
      rw [empty]
      rfl
  generalize done : copyToUserData os.machine (os.processes t).mm.pml4 a2 (some bytes)
    bytes.length = result at copied ⊢
  obtain ⟨ok, machine⟩ := result
  dsimp only at copied
  subst copied
  have straight : Accessed (Straight (fun _ address => address) os.machine
      (os.processes t).mm.pml4) os.machine.memory (os.processes t).mm.pml4 a2 bytes.length :=
    ⟨fun _ _ _ _ _ _ _ _ _ _ _ _ => rfl, fun _ _ _ _ _ _ _ _ _ _ => rfl⟩
  rw [(copyToUserData_iff valid clear straight done).mpr ordinary]
  dsimp only
  split
  · rfl
  · rfl

/-- A read of a file returns what comes next in it, and the bytes land in the memory of the task
as if it had stored them itself. -/
theorem syscallRead_file (descriptor : int32 a1 = fd) (notStdin : 0 < fd) (least : 1 ≤ count)
    (most : count ≤ syscallIoMax) (block : choice.kmalloc count = true)
    (buffer : ValidBuffer os t a2 count)
    (file : fdGet os t fd = some ⟨some (.file name size cluster), offset, flags⟩)
    (geometry : Geometry os.volume)
    (chain : ClusterChain os.volume os.drive.sectors cluster size clusters)
    (ready : os.drive.Ready) (smallCluster : cluster < 2 ^ 32) (smallSize : size < 2 ^ 32)
    (inside : offset ≤ size) :
    bounced os t fd count =
        ((contents os.volume os.drive.shown clusters size).drop offset).take count ∧
      (syscallRead choice t a1 a2 count os).1 = (bounced os t fd count).length ∧
      (syscallRead choice t a1 a2 count os).2.volume = os.volume ∧
      (syscallRead choice t a1 a2 count os).2.drive.sectors = os.drive.sectors ∧
      (syscallRead choice t a1 a2 count os).2.drive.Ready ∧
      fdGet (syscallRead choice t a1 a2 count os).2 t fd =
        some ⟨some (.file name size cluster), offset + (bounced os t fd count).length, flags⟩ ∧
      (WellFormed os.machine (os.processes t).mm.pml4 →
        ClearOfTables os.machine.memory (os.processes t).mm.pml4 a2
          (bounced os t fd count).length →
        ClearOfLargePages os.machine.memory (os.processes t).mm.pml4 a2
          (bounced os t fd count).length →
        ringThreeStores os.machine.memory (os.processes t).mm.pml4 a2 (bounced os t fd count)
            os.machine.memory =
          some (syscallRead choice t a1 a2 count os).2.machine.memory) := by
  obtain ⟨drive', read, same, ready'⟩ :=
    fat32VfsRead_reads geometry chain ready smallCluster smallSize inside count
  have bouncedEq : bounced os t fd count =
      ((contents os.volume os.drive.shown clusters size).drop offset).take count := by
    rw [bounced, file]
    dsimp only
    rw [read, Option.getD_some]
  have length : (bounced os t fd count).length = min count (size - offset) := by
    rw [bouncedEq, List.length_take, List.length_drop, chain.length_contents]
  have called : syscallRead choice t a1 a2 count os =
      deliver { os with drive := drive' } t fd a2 (bounced os t fd count) := by
    unfold syscallRead
    rw [descriptor, file]
    dsimp only
    rw [if_neg (not_lt.mpr most), if_neg (by omega), block, if_neg (by decide),
      if_neg notStdin.ne', read, ← bouncedEq]
    dsimp only
    rw [if_neg (by omega)]
  obtain ⟨result, volume, drive, after⟩ :=
    @deliver_copies t a2 count { os with drive := drive' } fd name size cluster offset flags
      (bounced os t fd count) notStdin (by omega) buffer file (by omega)
  rw [called]
  refine ⟨bouncedEq, result, volume, ?_, ?_, after, fun valid clear ordinary =>
    @deliver_stores t a2 { os with drive := drive' } fd _ valid clear ordinary
      fun bytes fits => buffer bytes (by omega)⟩
  · rw [drive]
    exact same
  · rw [drive]
    exact ready'

end Reading

/-! ## Runs of calls -/

@[simp] theorem returned_concat (events : List FileEvent) (event : FileEvent) :
    returned (events ++ [event]) = returned events ++ event.data := by
  simp [returned]

@[simp] theorem requested_concat (events : List FileEvent) (event : FileEvent) :
    requested (events ++ [event]) = requested events + event.count := by
  simp [requested]

/-- How far a file has been read: what the drive shows of it has been returned as far as it
was asked for. -/
structure Progress (t : TaskId) (fd : Int) (name : List UInt8) (size cluster flags : Nat)
    (clusters : List Nat) (start : Os) (events : List FileEvent) (os : Os) : Prop where
  volume : os.volume = start.volume
  same : SameFile start.volume clusters start.drive os.drive
  ready : os.drive.Ready
  descriptor : fdGet os t fd =
    some ⟨some (.file name size cluster), (returned events).length, flags⟩
  data : returned events =
    (contents start.volume start.drive.shown clusters size).take (requested events)
  results : ∀ earlier count result data, earlier ++ [.read count result data] <+: events →
    1 ≤ count ∧ result = data.length ∧
      data.length = min count (size - (returned earlier).length)

section Runs

variable {t : TaskId} {fd : Int} {name : List UInt8} {size cluster flags : Nat}
  {clusters : List Nat} {start os os' : Os} {events : List FileEvent} {event : FileEvent}

theorem Progress.length_returned
    (progress : Progress t fd name size cluster flags clusters start events os)
    (chain : ClusterChain start.volume start.drive.sectors cluster size clusters) :
    (returned events).length = min (requested events) size := by
  rw [progress.data, List.length_take, chain.length_contents]

theorem Progress.step
    (progress : Progress t fd name size cluster flags clusters start events os)
    (notStdin : 0 < fd) (geometry : Geometry start.volume)
    (chain : ClusterChain start.volume start.drive.sectors cluster size clusters)
    (smallCluster : cluster < 2 ^ 32) (smallSize : size < 2 ^ 32)
    (step : FileStep t fd clusters os event os') :
    Progress t fd name size cluster flags clusters start (events ++ [event]) os' := by
  cases step with
  | other volume same ready descriptor =>
      rw [progress.volume] at same
      exact {
        volume := volume.trans progress.volume
        same := progress.same.trans same
        ready := ready
        descriptor := by
          rw [descriptor, progress.descriptor, returned_concat, FileEvent.data, List.append_nil]
        data := by
          rw [returned_concat, requested_concat, FileEvent.data, FileEvent.count, List.append_nil]
          exact progress.data
        results := by
          intro earlier count result data first
          rcases List.prefix_concat_iff.mp first with last | before
          · cases (List.append_inj' last rfl).2
          · exact progress.results earlier count result data before }
  | @read choice a1 a2 count descriptor least most block buffer =>
  have length := progress.length_returned chain
  have volume := progress.volume
  obtain ⟨data, result, volume', sectors, ready, after, -⟩ :=
    syscallRead_file descriptor notStdin least most block buffer progress.descriptor
      (volume ▸ geometry) (volume ▸ progress.same.chain chain) progress.ready smallCluster
      smallSize (by omega)
  rw [volume, progress.same.contents_shown] at data
  have rest : (contents start.volume start.drive.shown clusters size).drop
      (returned events).length =
      (contents start.volume start.drive.shown clusters size).drop (requested events) := by
    have whole := chain.length_contents start.drive.shown
    rcases le_total (requested events) size with part | all
    · rw [length, Nat.min_eq_left part]
    · rw [length, Nat.min_eq_right all, List.drop_of_length_le whole.le,
        List.drop_of_length_le (by omega)]
  exact {
    volume := volume'.trans volume
    same := progress.same.trans (.of_sectors sectors)
    ready := ready
    descriptor := by
      rw [after, returned_concat, FileEvent.data, List.length_append]
    data := by
      rw [returned_concat, requested_concat, FileEvent.data, FileEvent.count, data, rest,
        progress.data, ← List.take_add]
    results := by
      intro earlier count' result' data' first
      rcases List.prefix_concat_iff.mp first with last | before
      · obtain ⟨rfl, same⟩ := List.append_inj' last rfl
        cases same
        refine ⟨least, result, ?_⟩
        rw [data, List.length_take, List.length_drop, chain.length_contents]
      · exact progress.results earlier count' result' data' before }

theorem progress_of_run {finish : Os} (notStdin : 0 < fd) (geometry : Geometry start.volume)
    (chain : ClusterChain start.volume start.drive.sectors cluster size clusters)
    (smallCluster : cluster < 2 ^ 32) (smallSize : size < 2 ^ 32) (ready : start.drive.Ready)
    (fresh : fdGet start t fd = some ⟨some (.file name size cluster), 0, flags⟩)
    (run : Run (FileStep t fd clusters) start events finish) :
    Progress t fd name size cluster flags clusters start events finish := by
  induction run with
  | start =>
      exact {
        volume := rfl
        same := .of_sectors rfl
        ready := ready
        descriptor := fresh
        data := rfl
        results := by
          intro earlier count result data first
          cases List.append_eq_nil_iff.mp (List.prefix_nil.mp first) with
          | intro _ impossible => cases impossible }
  | next run last ih => exact ih.step notStdin geometry chain smallCluster smallSize last

/-- Every byte that is asked for lies in a sector that the address registers can select, or the
sector that they select instead has the same byte. -/
def Selected (os : Os) (clusters : List Nat) (amount : Nat) : Prop :=
  ∀ position < amount, ∀ sector,
    (fileSectors os.volume clusters)[position / sectorSize]? = some sector →
    sector < 2 ^ 28 ∨
      os.drive.sectors sector (position % sectorSize) =
        os.drive.sectors (lba28 sector) (position % sectorSize)

theorem Progress.reads_iff {finish : Os}
    (progress : Progress t fd name size cluster flags clusters start events finish)
    (chain : ClusterChain start.volume start.drive.sectors cluster size clusters) :
    ReadsFile (contents start.volume start.drive.sectors clusters size) events ↔
      Selected start clusters (min (requested events) size) := by
  have whole := chain.length_contents start.drive.sectors
  have amount := progress.length_returned chain
  have shown : (returned events) <+: contents start.volume start.drive.shown clusters size := by
    rw [progress.data]
    exact List.take_prefix _ _
  constructor
  · intro reads position below sector there
    by_cases reached : sector < 2 ^ 28
    · exact .inl reached
    right
    have inReturned : position < (returned events).length := by omega
    have inSize : position < size := by omega
    have stored := List.prefix_iff_getElem?.mp reads.data position inReturned
    have read := List.prefix_iff_getElem?.mp shown position inReturned
    rw [getElem?_contents inSize there] at stored read
    exact Option.some.inj (stored.trans read.symm)
  intro selected
  have data : returned events <+:
      contents start.volume start.drive.sectors clusters size := by
    rw [List.prefix_iff_getElem?] at shown ⊢
    intro position inReturned
    have inSize : position < size := by omega
    have inside : position / sectorSize < (fileSectors start.volume clusters).length := by
      have covers := chain.covers
      rw [clusterSize, ← Nat.mul_assoc, ← length_fileSectors] at covers
      exact Nat.div_lt_of_lt_mul (by rw [Nat.mul_comm]; omega)
    have there := List.getElem?_eq_getElem inside
    rw [← shown position inReturned, getElem?_contents inSize there,
      getElem?_contents inSize there, Option.some.injEq, Drive.shown]
    rcases selected position (by omega) _ there with reached | same
    · rw [lba28, Nat.mod_eq_of_lt reached]
    · exact same
  exact {
    data := data
    results := by
      intro earlier count result data first
      rw [whole]
      exact (progress.results earlier count result data first).2
    atEnd := by
      intro earlier count bytes first
      obtain ⟨least, result, length⟩ := progress.results earlier count 0 _ first
      have part : returned earlier <+: returned events := by
        obtain ⟨later, rfl⟩ := first
        simp only [returned, List.flatMap_append, List.append_assoc, List.prefix_append]
      apply (part.trans data).eq_of_length_le
      omega }

/-- A file that has been opened is read as it is in its sectors, exactly when the address
registers reach what is asked for. -/
theorem reads_file_iff {choice : Choice} {a1 offset : Nat} {before finish : Os}
    (mounted : Mounted before.volume)
    (opened : syscallOpen choice t a1 before = (fd, start)) (success : 0 ≤ fd)
    (file : fdGet start t fd = some ⟨some (.file name size cluster), offset, flags⟩)
    (chain : ClusterChain start.volume start.drive.sectors cluster size clusters)
    (ready : start.drive.Ready) (run : Run (FileStep t fd clusters) start events finish) :
    ReadsFile (contents start.volume start.drive.sectors clusters size) events ↔
      Selected start clusters (min (requested events) size) := by
  obtain ⟨notStdin, -, rfl, smallCluster, smallSize, volume⟩ :=
    syscallOpen_file opened success file
  have geometry : Geometry start.volume := by
    rw [volume]
    exact mounted.geometry
  have progress := progress_of_run (by omega) geometry chain smallCluster smallSize ready file run
  exact progress.reads_iff chain

end Runs

/-- The root directory, with a file `A` of one byte. -/
def sampleDirectory (cluster : Nat) : ByteMemory :=
  ByteMemory.storeBytes (fun _ => 0) 0 [65, 32, 32, 32, 32, 32, 32, 32, 32, 32, 32, 0x20]
    |>.writeLE 20 2 (cluster / 2 ^ 16) |>.writeLE 26 2 (cluster % 2 ^ 16) |>.writeLE 28 4 1

def sampleDrive (cluster : Nat) : Drive where
  sectors lba :=
    if lba = 0 then sampleBoot 0x10010000
    else if lba = 16432 then sampleDirectory cluster
    else if lba = 16432 + (cluster - 2) * 128 then fun _ => 1
    else fun _ => 0
  outcome _ := .done

def sampleVolume : Volume := ⟨true, 128, 1, 16400, 0x10010000, 2, 32, 16432, 2097535⟩

theorem mounted_sampleVolume : Mounted sampleVolume := by
  constructor
  · rfl
  · exact ⟨sampleDrive 3, by rfl⟩

/-- One page for all tables, which maps the page of the task at its physical address. -/
def sampleMachine : Machine where
  memory := ByteMemory.writeLE (fun _ => 0) 0x1000 8 0x1007 |>.writeLE 0x1040 8 0x8007
    |>.storeBytes 0x8000 [47, 65, 0]
  pmm := bootPmm
  cr3 := 0x1000

def sampleProcess : Process where
  capabilities := capFsRead
  addressSpace := 0x1000
  mm := ⟨0x1000, 0, 0, 0⟩
  userRsp := 0
  fds := fdTableCloseAll fun _ => {}
  receiving := none

def sampleOs (cluster : Nat) : Os where
  kernel := { timerFrequencyHz := 100 }
  processes _ := sampleProcess
  machine := sampleMachine
  volume := sampleVolume
  drive := sampleDrive cluster
  sockets _ := {}
  keyboard := []

def sampleChoice : Choice where
  kmalloc _ := true
  blocks := ⟨true, true⟩
  sent := 0
  received := (0, [])
  statistics := []
  transfers := 0

/-- The file `/A` has been opened. -/
def sampleOpened (cluster : Nat) : Os :=
  { sampleOs cluster with drive := { sampleDrive cluster with transfers := 1 } }.updateFd 1 3
    fun _ => { node := some (.file [65] 1 cluster), offset := 0, flags := 0 }

/-- The file lies at a cluster. -/
def SampleFile (cluster : Nat) : Prop :=
  fsOpen sampleVolume [65] (sampleDrive cluster) =
    (some ⟨cluster, 1, 0, 2, 0, 0⟩, { sampleDrive cluster with transfers := 1 })

theorem sampleFile_near : SampleFile 3 := by
  rfl

theorem sampleFile_far : SampleFile 2097026 := by
  rfl

section Sample

variable {cluster : Nat}

theorem syscallOpen_sample (file : SampleFile cluster) :
    syscallOpen sampleChoice 1 0x8000 (sampleOs cluster) = (3, sampleOpened cluster) := by
  have path : copyInString (sampleOs cluster) 1 0x8000 256 = some [47, 65] := by
    have copied : copyUserString sampleMachine 0x1000 0x8000 true 256 = (true, [47, 65, 0]) := by
      decide +kernel
    simp only [copyInString, sampleOs, sampleProcess, copied]
    rfl
  have capable : checkCapability ((sampleOs cluster).processes 1) capFsRead = true :=
    show checkCapability sampleProcess capFsRead = true by decide
  have device : pathString [47, 65] ∉ ["/dev/null", "/dev/zero", "/dev/kbd", "/dev/vga"] := by
    decide
  have found : resolve sampleVolume true [47, 65] (sampleDrive cluster) =
      (some (.file [65] 1 cluster), { sampleDrive cluster with transfers := 1 }) := by
    rw [resolve, if_neg device]
    dsimp only
    rw [fat32VfsFinddir, file]
    rfl
  rw [syscallOpen, if_neg (by decide), capable, if_neg (by decide), path]
  dsimp only
  rw [show resolve (sampleOs cluster).volume (sampleChoice.kmalloc nodeSize) [47, 65]
    (sampleOs cluster).drive = _ from found]
  rfl

theorem fdGet_sampleOpened (cluster : Nat) :
    fdGet (sampleOpened cluster) 1 3 = some ⟨some (.file [65] 1 cluster), 0, 0⟩ := by
  rfl

theorem validBuffer_sampleOpened (cluster : Nat) :
    ValidBuffer (sampleOpened cluster) 1 0x8100 1 := by
  intro bytes short
  have entry : userEntry sampleMachine 0x1000 0x8100 = some 0x8007#64 := by
    decide +kernel
  have page : copyToUserChunk sampleMachine 0x1000 0x8100 bytes =
      some { sampleMachine with memory := sampleMachine.memory.storeBytes 0x8100 bytes } := by
    have target : physicalAddress 0x8007#64 0x8100 = 0x8100 := by
      decide
    rw [copyToUserChunk, entry]
    dsimp only
    rw [if_neg (by decide), target]
  obtain ⟨final, copied, -⟩ := @pageLoop_succeeds Machine
    (fun machine copied chunk => copyToUserChunk machine 0x1000 (0x8100 + copied)
      ((bytes.drop copied).take chunk)) 0x8100 bytes.length
    (fun copied machine => copied = 0 → machine = sampleMachine)
    (by
      intro copied chunk machine below chunkEq before
      have first : copied = 0 := by omega
      have all : (bytes.drop copied).take chunk = bytes := by
        rw [first, List.drop_zero, List.take_of_length_le]
        simp only [chunkEq, first, chunkSize, pageSize]
        omega
      have onward : 0 < chunk := by
        simp only [chunkEq, chunkSize, pageSize]
        omega
      rw [before first, all, first]
      exact ⟨_, page, fun impossible => by omega⟩)
    0 sampleMachine (Nat.zero_le _) (fun _ => rfl)
  have done : (copyToUserData sampleMachine 0x1000 0x8100 (some bytes) bytes.length).1 = true := by
    rw [copyToUserData, if_neg (by decide)]
    split
    · rfl
    · rw [if_neg (by simp only [userLimit]; omega), copied]
  exact done

theorem clusterChain_sample (valid : clusterValid sampleVolume cluster = true) :
    ClusterChain sampleVolume (sampleDrive cluster).sectors cluster 1 [cluster] where
  first := by
    intro first member
    cases member
    rfl
  valid := by
    intro other member
    rwa [List.mem_singleton.mp member]
  linked := List.isChain_singleton cluster
  covers := by
    change 1 ≤ 1 * 65536
    decide

theorem ready_sampleOpened (cluster : Nat) : (sampleOpened cluster).drive.Ready :=
  fun _ _ => rfl

/-- One byte is read. -/
def sampleEvents (cluster : Nat) : List FileEvent :=
  [.read 1 (syscallRead sampleChoice 1 3 0x8100 1 (sampleOpened cluster)).1
    (bounced (sampleOpened cluster) 1 3 1)]

theorem run_sample (clusters : List Nat) :
    Run (FileStep 1 3 clusters) (sampleOpened cluster) (sampleEvents cluster)
      (syscallRead sampleChoice 1 3 0x8100 1 (sampleOpened cluster)).2 :=
  Run.start.next (.read (by decide) le_rfl (by decide) rfl (validBuffer_sampleOpened cluster))

theorem firstSector_sample (cluster : Nat) :
    (fileSectors sampleVolume [cluster])[0]? = some (clusterToSector sampleVolume cluster) :=
  @sector_of_position sampleVolume [cluster] 0 0 cluster rfl (by decide)

end Sample

/-- The file at the near cluster is read. -/
theorem near_file_read :
    ReadsFile (contents sampleVolume (sampleDrive 3).sectors [3] 1) (sampleEvents 3) := by
  apply (reads_file_iff mounted_sampleVolume (syscallOpen_sample sampleFile_near) (by decide)
    (fdGet_sampleOpened 3) (clusterChain_sample rfl) (ready_sampleOpened 3)
    (run_sample [3])).mpr
  intro position below sector there
  left
  have first : position = 0 := by omega
  rw [first] at there
  have same := (firstSector_sample 3).symm.trans there
  cases same
  decide

/-- The drive selects another sector for the only sector of the file at the far cluster. -/
theorem far_file_misread :
    Mounted sampleVolume ∧
      syscallOpen sampleChoice 1 0x8000 (sampleOs 2097026) = (3, sampleOpened 2097026) ∧
      fdGet (sampleOpened 2097026) 1 3 = some ⟨some (.file [65] 1 2097026), 0, 0⟩ ∧
      ClusterChain sampleVolume (sampleDrive 2097026).sectors 2097026 1 [2097026] ∧
      (sampleOpened 2097026).drive.Ready ∧
      Run (FileStep 1 3 [2097026]) (sampleOpened 2097026) (sampleEvents 2097026)
        (syscallRead sampleChoice 1 3 0x8100 1 (sampleOpened 2097026)).2 ∧
      ¬ ReadsFile (contents sampleVolume (sampleDrive 2097026).sectors [2097026] 1)
        (sampleEvents 2097026) := by
  refine ⟨mounted_sampleVolume, syscallOpen_sample sampleFile_far,
    fdGet_sampleOpened _, clusterChain_sample rfl, ready_sampleOpened _, run_sample _, ?_⟩
  have progress := progress_of_run (by decide) mounted_sampleVolume.geometry
    (@clusterChain_sample 2097026 rfl) (by decide) (by decide) (ready_sampleOpened _)
    (fdGet_sampleOpened 2097026) (run_sample [2097026])
  intro reads
  have selected := (progress.reads_iff (@clusterChain_sample 2097026 rfl)).mp reads
  rcases selected 0 (by decide) _ (firstSector_sample 2097026) with reached | same
  · revert reached
    decide
  · revert same
    decide

end Charis.Syscall
