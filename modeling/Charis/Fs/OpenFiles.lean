import Charis.Lib.Transition
import Charis.Fs.Reopening

/-!
# Several open files

Files that are open at the same time are read and written through their handles in any order.
Each of them is a sequence of bytes with a position, which only calls for this file change.
-/

namespace Charis.Fs

open Charis.Lib

/-- What a call leaves of the volume, seen from the file that it was for. -/
structure Effect (volume : Volume) (file file' : File) (clusters clusters' : List Nat)
    (before after : Nat → ByteMemory) : Prop where
  opened : OpenFile volume after file' clusters'
  directory : file'.dirCluster = file.dirCluster
  members : ∀ cluster ∈ clusters', cluster ∈ clusters ∨ entryIn volume before cluster = 0
  entries : ∀ cluster, clusterValid volume cluster = true → entryIn volume before cluster ≠ 0 →
    cluster ∉ clusters → entryIn volume after cluster = entryIn volume before cluster
  others : ∀ other others, FileChain volume before other others → others.Disjoint clusters →
    file.dirCluster ∉ others → FileChain volume after other others ∧
      ∀ sector ∈ fileSectors volume others, after sector = before sector

section Effects

variable {volume : Volume} {drive : Drive} {file : File} {clusters : List Nat}
  {bytes : List UInt8}

/-- A file is extended, and nothing else changes. -/
theorem Extended.effect (geometry : Geometry volume) {file' : File} {clusters' : List Nat}
    {before after : Nat → ByteMemory} (opened : OpenFile volume before file clusters)
    (extended : Extended volume {sector | Transferred volume sector} file file' clusters clusters'
      before after) : Effect volume file file' clusters clusters' before after where
  opened := by
    have same := extended.entries file.dirCluster opened.valid opened.used opened.apart
    rw [extended.same]
    refine ⟨extended.same ▸ extended.chain, opened.valid, opened.below, same ▸ opened.used, ?_⟩
    intro member
    rcases extended.members _ member with old | free
    · exact opened.apart old
    · exact opened.used free
  directory := by rw [extended.same]
  members := extended.members
  entries := extended.entries
  others := by
    intro other others chain disjoint apart
    constructor
    · apply chain.congr
      intro cluster member
      exact extended.entries cluster (chain.valid cluster member) (chain.used cluster member)
        fun again => disjoint member again
    · intro sector member
      exact extended.elsewhere sector (transferred_of_mem chain.valid member)
        (not_tableSector_of_mem geometry chain.valid member)

theorem Steps.effect (geometry : Geometry volume)
    (injective : Set.InjOn lba28 {sector | Transferred volume sector})
    {extended : File} {clusters' : List Nat} {before linked written after : Nat → ByteMemory}
    (opened : OpenFile volume before file clusters)
    (steps : Steps volume file extended clusters clusters' bytes before linked written after) :
    Effect volume file (extended.advance bytes.length) clusters clusters' before after where
  opened := by
    have chain := steps.chain geometry injective opened
    have directory := steps.extension.entries file.dirCluster opened.valid opened.used opened.apart
    have apart := steps.apart opened
    rw [steps.extension.same] at chain ⊢
    refine ⟨chain, opened.valid, opened.below, ?_, apart⟩
    change entryIn volume after file.dirCluster ≠ 0
    rw [steps.entries geometry injective opened opened.valid, directory]
    exact opened.used
  directory := by
    rw [File.advance, steps.extension.same]
  members := steps.extension.members
  entries := by
    intro cluster valid used foreign
    rw [steps.entries geometry injective opened valid]
    exact steps.extension.entries cluster valid used foreign
  others := by
    intro other others chain disjoint apart
    exact steps.other geometry injective opened chain disjoint apart

theorem Steps.contents_overwritten (geometry : Geometry volume)
    (injective : Set.InjOn lba28 {sector | Transferred volume sector})
    {extended : File} {clusters' : List Nat} {before linked written after : Nat → ByteMemory}
    (opened : OpenFile volume before file clusters) (inside : file.pos ≤ file.size)
    (some : bytes ≠ [])
    (steps : Steps volume file extended clusters clusters' bytes before linked written after) :
    Overwrites sectorSize 0 file.pos bytes (contents volume before clusters file.size)
      (contents volume after clusters' (extended.advance bytes.length).size) := by
  have chain := steps.chain geometry injective opened
  have size : (extended.advance bytes.length).size =
      max file.size (file.pos + bytes.length) := by
    rw [File.advance, steps.extension.same]
  have covers : file.size ≤ clusters'.length * clusterSize volume := by
    have covers := chain.covers
    rw [size] at covers
    exact (Nat.le_max_left _ _).trans covers
  rw [contents_eq_map chain.covers, size,
    byteAt_congr (steps.sectors geometry injective opened),
    ← steps.contents_linked geometry opened, contents_eq_map covers]
  exact steps.data.bytes.overwrites some inside

/-- A write returns the number of its bytes, or it fails and leaves the file as it was, apart
from clusters behind its contents. -/
theorem fsWrite_cases (geometry : Geometry volume)
    (injective : Set.InjOn lba28 {sector | Transferred volume sector}) (ready : drive.Ready)
    (opened : OpenFile volume drive.shown file clusters) {wrote : Option Nat} {file' : File}
    {drive' : Drive} (done : fsWrite volume file bytes drive = (wrote, file', drive')) :
    drive'.Ready ∧ ((wrote = some bytes.length ∧ bytes ≠ [] ∧
        ∃ extended clusters' linked written, file' = extended.advance bytes.length ∧
          Steps volume file extended clusters clusters' bytes drive.shown linked written
            drive'.shown) ∨
      wrote = none ∧ ∃ clusters', Extended volume {sector | Transferred volume sector} file file'
        clusters clusters' drive.shown drive'.shown) := by
  by_cases empty : bytes = []
  · rw [fsWrite, if_pos (.inr empty)] at done
    cases done
    exact ⟨ready, .inr ⟨rfl, clusters, .of_chain opened.chain⟩⟩
  cases extension : fsExtend volume file bytes.length drive with
  | mk ok result =>
  obtain ⟨file₁, drive₁⟩ := result
  cases ok with
  | true =>
      obtain ⟨wrote', ready', steps⟩ :=
        fsWrite_of_extend geometry injective ready opened empty extension
      rw [done] at wrote' ready' steps
      exact ⟨ready', .inl ⟨wrote', empty, steps⟩⟩
  | false =>
  rw [fsWrite, if_neg (by simp [geometry.mounted, empty]), extension] at done
  cases done
  obtain ⟨ready', clusters', extended, -⟩ :=
    fsExtend_extended geometry (apart_of_injOn injective) ready opened.chain
      (List.length_pos_of_ne_nil empty) extension
  exact ⟨ready', .inr ⟨rfl, clusters', extended⟩⟩

end Effects

section Positions

variable {volume : Volume} {drive drive' : Drive} {file file' : File} {bytes bytes' : List UInt8}
  {size fuel cluster offset : Nat}

theorem readLoop_file (small : file.pos < 2 ^ 32)
    (done : readLoop volume size fuel cluster offset file bytes drive =
      (some bytes', file', drive')) :
    bytes.length ≤ bytes'.length ∧
      file' = { file with pos := (file.pos + (bytes'.length - bytes.length)) % 2 ^ 32 } := by
  induction fuel generalizing cluster offset file bytes drive with
  | zero =>
      cases done
      rw [Nat.sub_self, Nat.add_zero, Nat.mod_eq_of_lt small]
      exact ⟨le_rfl, rfl⟩
  | succ fuel ih =>
  rw [readLoop] at done
  dsimp only at done
  split at done
  · cases done
    rw [Nat.sub_self, Nat.add_zero, Nat.mod_eq_of_lt small]
    exact ⟨le_rfl, rfl⟩
  split at done
  · cases done
  cases read : ataReadSector drive
      ((clusterToSector volume cluster + offset / sectorSize) % 2 ^ 32) with
  | mk buffer drive₁ =>
  rw [read] at done
  cases buffer with
  | none => cases done
  | some buffer =>
  dsimp only at done
  generalize min (size - bytes.length) (sectorSize - offset % sectorSize) = count at done
  have onward {next place offset : Nat} {drive₁ : Drive}
      (rest : readLoop volume size fuel next offset
        { file with pos := (file.pos + count) % 2 ^ 32 }
        (bytes ++ buffer.loadBytes place count) drive₁ = (some bytes', file', drive')) :
      bytes.length ≤ bytes'.length ∧ file' =
        { file with pos := (file.pos + (bytes'.length - bytes.length)) % 2 ^ 32 } := by
    obtain ⟨longer, same⟩ := ih (Nat.mod_lt _ (by decide)) rest
    rw [List.length_append, ByteMemory.length_loadBytes] at longer same
    refine ⟨by omega, ?_⟩
    rw [same, Nat.mod_add_mod, Nat.add_assoc,
      show count + (bytes'.length - (bytes.length + count)) =
        bytes'.length - bytes.length by omega]
  split at done
  · exact onward done
  · exact onward done

theorem fsRead_file (small : file.pos < 2 ^ 32)
    (done : fsRead volume file size drive = (some bytes', file', drive')) :
    file' = { file with pos := (file.pos + bytes'.length) % 2 ^ 32 } := by
  have still : file = { file with pos := (file.pos + 0) % 2 ^ 32 } := by
    rw [Nat.add_zero, Nat.mod_eq_of_lt small]
  rw [fsRead] at done
  dsimp only at done
  split at done
  · cases done
  split at done
  · cases done
    exact still
  split at done
  · cases done
  cases skipped : skipRead volume (file.pos / clusterSize volume) file.cluster drive with
  | mk cluster drive₁ =>
  rw [skipped] at done
  cases cluster with
  | none => cases done
  | some cluster => exact (readLoop_file small done).2

end Positions

/-! ## Files that are open at the same time -/

/-- Handles on a drive. -/
structure OpenFiles (ι : Type*) where
  handle : ι → File
  drive : Drive

/-- A call for one of the files.  The position of a handle is set without a function. -/
inductive FileCall (ι : Type*)
  | seek (file : ι) (pos : UInt32)
  /-- `fs_read`. -/
  | read (file : ι) (count : Nat)
  /-- `fs_write`. -/
  | write (file : ι) (bytes : List UInt8)

/-- What a call returns. -/
inductive FileAnswer
  | sought
  | data (bytes : Option (List UInt8))
  | wrote (count : Option Nat)
  deriving DecidableEq

section Calls

variable {ι : Type*} [DecidableEq ι]

/-- A call with the handle of its file. -/
def OpenFiles.perform (volume : Volume) (files : OpenFiles ι) : FileCall ι →
    FileAnswer × OpenFiles ι
  | .seek file pos =>
      (.sought, { files with
        handle := Function.update files.handle file { files.handle file with pos := pos.toNat } })
  | .read file count =>
      match fsRead volume (files.handle file) count files.drive with
      | (bytes, handle, drive) => (.data bytes, ⟨Function.update files.handle file handle, drive⟩)
  | .write file bytes =>
      match fsWrite volume (files.handle file) bytes files.drive with
      | (count, handle, drive) => (.wrote count, ⟨Function.update files.handle file handle, drive⟩)

/-- A call and what it returns.  No write begins behind the end of its file. -/
def OpenFiles.Step (volume : Volume) (files : OpenFiles ι) (event : FileCall ι × FileAnswer)
    (files' : OpenFiles ι) : Prop :=
  files.perform volume event.1 = (event.2, files') ∧
    ∀ file bytes, event.1 = .write file bytes →
      (files.handle file).pos ≤ (files.handle file).size

/-- A file as its users see it. -/
structure Stream where
  content : List UInt8
  pos : Nat

/-- A call for one of several streams.  A write fills up the last sector that it enters at its
start, and may be refused, but then it does nothing. -/
inductive StreamStep : (ι → Stream) → FileCall ι × FileAnswer → (ι → Stream) → Prop
  | seek (streams : ι → Stream) (file : ι) (pos : UInt32) :
      StreamStep streams (.seek file pos, .sought)
        (Function.update streams file { streams file with pos := pos.toNat })
  | read (streams : ι → Stream) (file : ι) (count : Nat) (bytes : List UInt8)
      (part : bytes = ((streams file).content.drop (streams file).pos).take count) :
      StreamStep streams (.read file count, .data (some bytes))
        (Function.update streams file
          { streams file with pos := (streams file).pos + bytes.length })
  | write (streams : ι → Stream) (file : ι) (bytes content : List UInt8)
      (replaced : Overwrites sectorSize 0 (streams file).pos bytes (streams file).content content) :
      StreamStep streams (.write file bytes, .wrote (some bytes.length))
        (Function.update streams file ⟨content, (streams file).pos + bytes.length⟩)
  | refuse (streams : ι → Stream) (file : ι) (bytes : List UInt8) :
      StreamStep streams (.write file bytes, .wrote none) streams

end Calls

/-- The files have chains that cover their sizes and have no cluster in common, nor one with a
directory entry. -/
structure ApartFiles {ι : Type*} (volume : Volume) (files : OpenFiles ι)
    (clusters : ι → List Nat) : Prop where
  opened : ∀ file, OpenFile volume files.drive.shown (files.handle file) (clusters file)
  disjoint : ∀ file other, file ≠ other → (clusters file).Disjoint (clusters other)
  directory : ∀ file other, (files.handle file).dirCluster ∉ clusters other
  pos : ∀ file, (files.handle file).pos < 2 ^ 32
  size : ∀ file, (files.handle file).size < 2 ^ 32
  ready : files.drive.Ready

/-- The streams that open files stand for. -/
def Stands {ι : Type*} (volume : Volume) (files : OpenFiles ι) (streams : ι → Stream) : Prop :=
  ∃ clusters, ApartFiles volume files clusters ∧ ∀ file, streams file =
    ⟨contents volume files.drive.shown (clusters file) (files.handle file).size,
      (files.handle file).pos⟩

section Apart

variable {ι : Type*} [DecidableEq ι] {volume : Volume} {files : OpenFiles ι}
  {clusters : ι → List Nat} {file : ι} {handle : File} {drive' : Drive} {clusters' : List Nat}

/-- A call for one file keeps all files apart, and the contents of the others. -/
theorem ApartFiles.update (apart : ApartFiles volume files clusters)
    (effect : Effect volume (files.handle file) handle (clusters file) clusters'
      files.drive.shown drive'.shown) (pos : handle.pos < 2 ^ 32) (size : handle.size < 2 ^ 32)
    (ready : drive'.Ready) :
    ApartFiles volume ⟨Function.update files.handle file handle, drive'⟩
        (Function.update clusters file clusters') ∧
      ∀ other, other ≠ file → ∀ size,
        contents volume drive'.shown (clusters other) size =
          contents volume files.drive.shown (clusters other) size := by
  have foreign : ∀ other, other ≠ file → ∀ cluster ∈ clusters other, cluster ∉ clusters' := by
    intro other different cluster member again
    rcases effect.members cluster again with old | free
    · exact apart.disjoint other file different member old
    · exact (apart.opened other).chain.used cluster member free
  have fresh : ∀ other, (files.handle other).dirCluster ∉ clusters' := by
    intro other member
    rcases effect.members _ member with old | free
    · exact apart.directory other file old
    · exact (apart.opened other).used free
  have kept : ∀ other, other ≠ file → FileChain volume drive'.shown (files.handle other)
      (clusters other) ∧ ∀ sector ∈ fileSectors volume (clusters other),
        drive'.shown sector = files.drive.shown sector := by
    intro other different
    exact effect.others (files.handle other) (clusters other) (apart.opened other).chain
      (apart.disjoint other file different) (apart.directory file other)
  have directories : ∀ other, (Function.update files.handle file handle other).dirCluster =
      (files.handle other).dirCluster := by
    intro other
    by_cases here : other = file
    · rw [here, Function.update_self, effect.directory]
    · rw [Function.update_of_ne here]
  refine ⟨⟨?_, ?_, ?_, ?_, ?_, ready⟩, fun other different => contents_congr (kept other different).2⟩
  · intro other
    by_cases here : other = file
    · subst here
      simp only [Function.update_self]
      exact effect.opened
    · simp only [Function.update_of_ne here]
      have old := apart.opened other
      refine ⟨(kept other here).1, old.valid, old.below, ?_, old.apart⟩
      rw [effect.entries _ old.valid old.used (apart.directory other file)]
      exact old.used
  · intro first second different
    by_cases here : first = file
    · subst here
      rw [Function.update_self, Function.update_of_ne different.symm]
      exact fun cluster member again => foreign second different.symm cluster again member
    · rw [Function.update_of_ne here]
      by_cases there : second = file
      · subst there
        rw [Function.update_self]
        exact fun cluster member again => foreign first here cluster member again
      · rw [Function.update_of_ne there]
        exact apart.disjoint first second different
  · intro first
    rw [directories first]
    exact (Function.forall_update_iff clusters fun _ other => _ ∉ other).mpr
      ⟨fresh first, fun other _ => apart.directory first other⟩
  · exact (Function.forall_update_iff files.handle fun _ other => other.pos < 2 ^ 32).mpr
      ⟨pos, fun other _ => apart.pos other⟩
  · exact (Function.forall_update_iff files.handle fun _ other => other.size < 2 ^ 32).mpr
      ⟨size, fun other _ => apart.size other⟩

theorem ApartFiles.stands (apart : ApartFiles volume files clusters)
    (effect : Effect volume (files.handle file) handle (clusters file) clusters'
      files.drive.shown drive'.shown) (pos : handle.pos < 2 ^ 32) (size : handle.size < 2 ^ 32)
    (ready : drive'.Ready) {streams : ι → Stream} {stream : Stream}
    (before : ∀ file, streams file =
      ⟨contents volume files.drive.shown (clusters file) (files.handle file).size,
        (files.handle file).pos⟩)
    (after : stream = ⟨contents volume drive'.shown clusters' handle.size, handle.pos⟩) :
    Stands volume ⟨Function.update files.handle file handle, drive'⟩
      (Function.update streams file stream) := by
  obtain ⟨apart', kept⟩ := apart.update effect pos size ready
  refine ⟨_, apart', ?_⟩
  intro other
  by_cases here : other = file
  · subst here
    simp only [Function.update_self]
    exact after
  · simp only [Function.update_of_ne here]
    rw [before other, kept other here]

end Apart

section Refinement

variable {ι : Type*} [DecidableEq ι] {volume : Volume} {files files' : OpenFiles ι}
  {streams : ι → Stream} {event : FileCall ι × FileAnswer}

theorem OpenFile.effect {file : File} {clusters : List Nat} {disk : Nat → ByteMemory}
    (opened : OpenFile volume disk file clusters) (pos : Nat) :
    Effect volume file { file with pos } clusters clusters disk disk where
  opened :=
    ⟨⟨opened.chain.chain, opened.chain.used, opened.chain.covers⟩, opened.valid, opened.below,
      opened.used, opened.apart⟩
  directory := rfl
  members := fun _ member => .inl member
  entries := fun _ _ _ _ => rfl
  others := fun _ _ chain _ _ => ⟨chain, fun _ _ => rfl⟩

/-- Every call does to the streams what it may do to them. -/
theorem Stands.step (geometry : Geometry volume)
    (injective : Set.InjOn lba28 {sector | Transferred volume sector})
    (stands : Stands volume files streams) (step : files.Step volume event files') :
    ∃ streams', StreamStep streams event streams' ∧ Stands volume files' streams' := by
  obtain ⟨clusters, apart, same⟩ := stands
  obtain ⟨call, answer⟩ := event
  obtain ⟨performed, inside⟩ := step
  cases call with
  | seek file pos =>
      cases performed
      refine ⟨_, .seek streams file pos, ?_⟩
      apply apart.stands ((apart.opened file).effect pos.toNat) pos.toNat_lt (apart.size file)
        apart.ready same
      rw [same file]
  | read file count =>
      have chain := (apart.opened file).chain
      obtain ⟨handle, drive, read, ready⟩ :=
        fsRead_reads geometry (chain.clusterChain geometry) apart.ready count
      rw [OpenFiles.perform, read] at performed
      cases performed
      have moved := fsRead_file (apart.pos file) read
      have shown := Drive.shown_congr
        (@fsRead_sectors volume files.drive (files.handle file) count)
      rw [read] at shown
      dsimp only at shown
      have length := (chain.clusterChain geometry).length_contents files.drive.shown
      have small := apart.size file
      have start := apart.pos file
      generalize part : ((contents volume files.drive.shown (clusters file)
        (files.handle file).size).drop (files.handle file).pos).take count = bytes at moved ⊢
      have inside : (files.handle file).pos + bytes.length < 2 ^ 32 := by
        rw [← part, List.length_take, List.length_drop, length]
        omega
      rw [Nat.mod_eq_of_lt inside] at moved
      subst moved
      refine ⟨_, .read streams file count bytes (by rw [same file, part]), ?_⟩
      have effect : Effect volume (files.handle file)
          { files.handle file with pos := (files.handle file).pos + bytes.length } (clusters file)
          (clusters file) files.drive.shown drive.shown := by
        rw [shown]
        exact (apart.opened file).effect _
      exact apart.stands effect inside small ready same (by rw [same file, shown])
  | write file bytes =>
  have begins := inside file bytes rfl
  cases wrote : fsWrite volume (files.handle file) bytes files.drive with
  | mk count result =>
  obtain ⟨handle, drive⟩ := result
  rw [OpenFiles.perform, wrote] at performed
  cases performed
  have opened := apart.opened file
  obtain ⟨ready, written | refused⟩ :=
    fsWrite_cases geometry injective apart.ready opened wrote
  · obtain ⟨rfl, some, extended, clusters', linked, middle, rfl, steps⟩ := written
    have replaced := steps.contents_overwritten geometry injective opened begins some
    refine ⟨_, .write streams file bytes _ (by rw [same file]; exact replaced), ?_⟩
    have effect := steps.effect geometry injective opened
    have position : (extended.advance bytes.length).pos =
        (files.handle file).pos + bytes.length := by
      rw [File.advance, steps.extension.same]
    have length : (extended.advance bytes.length).size =
        max (files.handle file).size ((files.handle file).pos + bytes.length) := by
      rw [File.advance, steps.extension.same]
    refine apart.stands effect (position ▸ steps.small)
      (length ▸ max_lt (apart.size file) steps.small) ready same ?_
    rw [same file, position]
  · obtain ⟨rfl, clusters', extended⟩ := refused
    refine ⟨_, .refuse streams file bytes, ?_⟩
    have effect := extended.effect geometry opened
    have position : handle.pos = (files.handle file).pos := by rw [extended.same]
    have length : handle.size = (files.handle file).size := by rw [extended.same]
    have unchanged := @ApartFiles.stands ι _ volume files clusters file handle drive clusters'
      apart effect (position ▸ apart.pos file) (length ▸ apart.size file) ready streams
      (streams file) same (by
        rw [same file, position, length, extended.contents_eq geometry opened.chain])
    rwa [Function.update_eq_self] at unchanged

/-- Files that are open on a volume are streams: every sequence of calls does to them, and
returns, what it may for the streams, and their chains stay apart. -/
theorem open_files_stand (mounted : Mounted volume)
    (injective : Set.InjOn lba28 {sector | Transferred volume sector})
    (stands : Stands volume files streams) {events : List (FileCall ι × FileAnswer)}
    (run : Run (OpenFiles.Step volume) files events files') :
    ∃ streams', Run StreamStep streams events streams' ∧ Stands volume files' streams' := by
  induction run with
  | start => exact ⟨streams, .start, stands⟩
  | next run step ih =>
      obtain ⟨streams₁, earlier, stands₁⟩ := ih
      obtain ⟨streams₂, last, stands₂⟩ := stands₁.step mounted.geometry injective step
      exact ⟨streams₂, earlier.next last, stands₂⟩

end Refinement

/-- A file with two letters and one without a cluster. -/
def twoFiles : OpenFiles Bool where
  handle file := cond file ⟨0, 0, 0, 2, 0, 1⟩ ⟨3, 2, 0, 2, 0, 0⟩
  drive := listed 3 2

theorem twoFiles_apart :
    ApartFiles smallVolume twoFiles fun file => cond file [] [3] where
  opened file := by
    cases file with
    | false => exact listed_openFile 0
    | true =>
        exact ⟨⟨rfl, fun _ member => absurd member List.not_mem_nil, Nat.le_refl 0⟩,
          (listed_openFile 0).valid, (listed_openFile 0).below, (listed_openFile 0).used,
          List.not_mem_nil⟩
  disjoint file other different := by
    cases file with
    | true => exact List.disjoint_nil_left _
    | false =>
        cases other with
        | true => exact List.disjoint_nil_right _
        | false => exact absurd rfl different
  directory := by decide
  pos := by decide
  size := by decide
  ready _ _ := rfl

/-- The second file gets a letter, and the first one is read. -/
theorem open_files_stand_two :
    ∃ files' streams',
      Run (OpenFiles.Step smallVolume) twoFiles [(.write true [67], .wrote (some 1)),
        (.read false 2, .data (some [65, 66]))] files' ∧
      Run StreamStep (fun file => cond file ⟨[], 0⟩ ⟨[65, 66], 0⟩)
        [(.write true [67], .wrote (some 1)), (.read false 2, .data (some [65, 66]))] streams' ∧
      Stands smallVolume files' streams' := by
  have stands : Stands smallVolume twoFiles fun file => cond file ⟨[], 0⟩ ⟨[65, 66], 0⟩ := by
    refine ⟨_, twoFiles_apart, ?_⟩
    intro file
    cases file with
    | true => rfl
    | false => exact congrArg (Stream.mk · 0) (by decide)
  have first : twoFiles.Step smallVolume (.write true [67], .wrote (some 1))
      (twoFiles.perform smallVolume (.write true [67])).2 :=
    ⟨Prod.ext (by decide) rfl, fun _ _ same => by cases same; decide⟩
  generalize middle_eq : (twoFiles.perform smallVolume (.write true [67])).2 = middle at first
  have second : middle.Step smallVolume (.read false 2, .data (some [65, 66]))
      (middle.perform smallVolume (.read false 2)).2 := by
    refine ⟨Prod.ext ?_ rfl, fun _ _ same => by cases same⟩
    rw [← middle_eq]
    decide
  have run := (Run.start.next first).next second
  obtain ⟨streams', refined, stands'⟩ := open_files_stand smallVolume_mounted
    (injOn_transferred smallVolume_mounted.geometry (by decide)) stands run
  exact ⟨_, streams', run, refined, stands'⟩

end Charis.Fs
