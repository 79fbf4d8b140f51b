import Charis.Lib.Chain
import Charis.Fs.CreateLaw

/-!
# The chain of an open file

The clusters of a file are linked in the first allocation table, from the one in its handle on.
Before a file is written it is extended: free clusters are appended to the part of its chain that
its size needs.
-/

namespace Charis.Fs

open Charis.Lib

/-- The cluster that the entry of a cluster leads to. -/
def linkIn (volume : Volume) (disk : Nat → ByteMemory) (cluster : Nat) : Option Nat :=
  if clusterValid volume (entryIn volume disk cluster) then some (entryIn volume disk cluster)
  else none

/-- The first cluster of a file, if it has one. -/
def startOf (volume : Volume) (cluster : Nat) : Option Nat :=
  if clusterValid volume cluster then some cluster else none

/-- The chain of an open file covers its size, and its clusters are in use. -/
structure FileChain (volume : Volume) (disk : Nat → ByteMemory) (file : File)
    (clusters : List Nat) : Prop where
  chain : Chain (linkIn volume disk) (startOf volume file.cluster) clusters
  used : ∀ cluster ∈ clusters, entryIn volume disk cluster ≠ 0
  covers : file.size ≤ clusters.length * clusterSize volume

/-- Clusters that lead from one to the next. -/
def Linked (volume : Volume) (disk : Nat → ByteMemory) (clusters : List Nat) : Prop :=
  clusters.IsChain fun cluster next => entryIn volume disk cluster = next

section Chains

variable {volume : Volume} {disk : Nat → ByteMemory} {start : Option Nat} {cluster : Nat}
  {clusters : List Nat} {file : File}

theorem startOf_of_valid (valid : clusterValid volume cluster = true) :
    startOf volume cluster = some cluster :=
  if_pos valid

theorem valid_of_startOf {first : Nat} (begins : startOf volume cluster = some first) :
    clusterValid volume first = true := by
  rw [startOf] at begins
  split at begins
  next valid =>
    cases begins
    exact valid
  · cases begins

theorem valid_of_linkIn {next : Nat} (link : linkIn volume disk cluster = some next) :
    clusterValid volume next = true ∧ entryIn volume disk cluster = next := by
  rw [linkIn] at link
  split at link
  next valid =>
    cases link
    exact ⟨valid, rfl⟩
  · cases link

theorem valid_of_chain (chain : Chain (linkIn volume disk) start clusters)
    (begins : ∀ first ∈ start, clusterValid volume first = true) :
    ∀ cluster ∈ clusters, clusterValid volume cluster = true := by
  induction clusters generalizing start with
  | nil => exact fun _ mem => nomatch mem
  | cons first clusters ih =>
      intro cluster mem
      cases mem with
      | head => exact begins first chain.1
      | tail _ mem => exact ih chain.2 (fun next link => (valid_of_linkIn link).1) cluster mem

theorem linked_of_chain (chain : Chain (linkIn volume disk) start clusters) :
    Linked volume disk clusters := by
  induction clusters generalizing start with
  | nil => exact .nil
  | cons first clusters ih =>
      have rest := ih chain.2
      cases clusters with
      | nil => exact .singleton _
      | cons second clusters =>
          exact .cons_cons (valid_of_linkIn chain.2.1).2 rest

theorem chain_of_linked (linked : Linked volume disk clusters) (begins : start = clusters.head?)
    (valid : ∀ cluster ∈ clusters, clusterValid volume cluster = true)
    (ended : ∀ last ∈ clusters.getLast?, linkIn volume disk last = none) :
    Chain (linkIn volume disk) start clusters := by
  induction clusters generalizing start with
  | nil => exact begins
  | cons first clusters ih =>
  refine ⟨begins, ?_⟩
  cases clusters with
  | nil => exact ended first rfl
  | cons second clusters =>
  obtain ⟨link, rest⟩ := List.isChain_cons_cons.mp linked
  apply ih rest
  · rw [linkIn, link, if_pos (valid second (by simp))]
    rfl
  · intro cluster mem
    exact valid cluster (.tail _ mem)
  · intro last mem
    exact ended last (by rwa [List.getLast?_cons_cons])

theorem used_of_linked (linked : Linked volume disk clusters)
    (valid : ∀ cluster ∈ clusters, clusterValid volume cluster = true)
    (ended : ∀ last ∈ clusters.getLast?, entryIn volume disk last ≠ 0) :
    ∀ cluster ∈ clusters, entryIn volume disk cluster ≠ 0 := by
  induction clusters with
  | nil => exact fun _ mem => nomatch mem
  | cons first clusters ih =>
  intro cluster mem
  cases clusters with
  | nil =>
      rw [List.mem_singleton.mp mem]
      exact ended first rfl
  | cons second clusters =>
  obtain ⟨link, rest⟩ := List.isChain_cons_cons.mp linked
  cases mem with
  | head =>
      have bounds := bounds_of_clusterValid (valid second (by simp))
      omega
  | tail _ mem =>
      exact ih rest (fun cluster mem => valid cluster (.tail _ mem))
        (fun last mem => ended last (by rwa [List.getLast?_cons_cons])) cluster mem

namespace FileChain

theorem valid (chain : FileChain volume disk file clusters) :
    ∀ cluster ∈ clusters, clusterValid volume cluster = true :=
  valid_of_chain chain.chain fun _ begins => valid_of_startOf begins

theorem linked (chain : FileChain volume disk file clusters) : Linked volume disk clusters :=
  linked_of_chain chain.chain

theorem nodup (chain : FileChain volume disk file clusters) : clusters.Nodup :=
  chain.chain.nodup

/-- A file has one chain only. -/
theorem unique {clusters' : List Nat} (chain : FileChain volume disk file clusters)
    (chain' : FileChain volume disk file clusters') : clusters = clusters' :=
  chain.chain.unique chain'.chain

theorem head (chain : FileChain volume disk file clusters) :
    clusters.head? = startOf volume file.cluster := by
  cases clusters with
  | nil => exact chain.chain.symm
  | cons first clusters => exact chain.chain.1.symm

/-- The chain stays when the entries of its clusters do. -/
theorem congr {disk' : Nat → ByteMemory} (chain : FileChain volume disk file clusters)
    (same : ∀ cluster ∈ clusters, entryIn volume disk' cluster = entryIn volume disk cluster) :
    FileChain volume disk' file clusters where
  chain := chain.chain.congr fun cluster mem => by rw [linkIn, linkIn, same cluster mem]
  used := fun cluster mem => same cluster mem ▸ chain.used cluster mem
  covers := chain.covers

end FileChain

end Chains

section Entries

variable {volume : Volume} {sectors : Set Nat} {drive : Drive} {cluster value : Nat}

theorem fatGet_of_ready (geometry : Geometry volume) (ready : drive.Ready)
    (valid : clusterValid volume cluster = true) :
    ∃ drive', fatGet volume drive cluster = (entryIn volume drive.shown cluster, drive') ∧
      Quiet drive drive' := by
  obtain ⟨inTable, -⟩ := geometry.lba28_fatSector valid
  obtain ⟨offset, place, row⟩ := geometry.fatSector_eq valid
  have tables := geometry.tables
  have inside := geometry.inside
  have copies : volume.fatSize32 ≤ volume.numFats * volume.fatSize32 :=
    Nat.le_mul_of_pos_left _ geometry.copies
  obtain ⟨drive', read, quiet⟩ := read_of_ready ready (fatSector volume cluster)
  refine ⟨drive', ?_, quiet⟩
  rw [fatGet, if_neg (by simp [geometry.mounted, valid]), if_neg (not_le.mpr inTable),
    if_neg (by omega), read]
  rfl

theorem Drive.Ready.stores (ready : drive.Ready) : drive.Stores := by
  refine ⟨ready _ le_rfl, ?_⟩
  rw [ready _ (Nat.le_succ _)]
  decide

theorem small_of_valid (geometry : Geometry volume) (valid : clusterValid volume cluster = true) :
    cluster < 2 ^ 28 := by
  have clusters := geometry.clusters
  have bounds := bounds_of_clusterValid valid
  omega

theorem fatAllocCluster_taken (geometry : Geometry volume) (apart : Apart volume sectors)
    {drive' : Drive} {next : Nat} (ready : drive.Ready)
    (taken : fatAllocCluster volume drive = (some next, drive')) :
    clusterValid volume next = true ∧ entryIn volume drive.shown next = 0 ∧
      TableChange volume sectors next endOfChain drive.shown drive'.shown ∧ drive'.Ready := by
  have effect := fatAllocCluster_effect geometry apart drive
  have later := @Later.findFree volume drive volume.totalClusters 2
  rw [← fatAllocCluster, taken] at later
  rw [taken] at effect
  cases effect with
  | inl failed => cases failed.1
  | inr taken =>
      obtain ⟨free, valid, zero, change, only⟩ := taken
      cases only next rfl
      exact ⟨valid, zero, change, later.ready ready⟩

theorem fatSet_changed (geometry : Geometry volume) (apart : Apart volume sectors)
    {drive' : Drive} {next : Nat} (ready : drive.Ready)
    (valid : clusterValid volume cluster = true) (valid' : clusterValid volume next = true)
    (done : fatSet volume drive cluster next = (true, drive')) :
    TableChange volume sectors cluster next drive.shown drive'.shown ∧ drive'.Ready := by
  have effect := (@fatSet_effect volume sectors drive cluster next geometry apart valid
    (.inr (.inr valid')) (small_of_valid geometry valid')).1 ready.stores
  have later := @Later.set volume drive cluster next
  rw [done] at effect later
  exact ⟨effect, later.ready ready⟩

theorem patchSector_of_ready (ready : drive.Ready) (sector offset width value : Nat) :
    (patchSector drive sector offset width value).1 = true := by
  rw [patchSector, ataReadSector, ready _ le_rfl]
  dsimp only
  rw [ataWriteSector]
  dsimp only
  rw [ready _ (Nat.le_succ _)]

/-- An entry of the table can be changed when the transfers are done. -/
theorem fatSet_of_ready (geometry : Geometry volume) (ready : drive.Ready)
    (valid : clusterValid volume cluster = true)
    (proper : 0x0FFFFFF8 ≤ value ∨ clusterValid volume value = true) (small : value < 2 ^ 28) :
    (fatSet volume drive cluster value).1 = true := by
  obtain ⟨-, place, row⟩ := geometry.fatSector_eq valid
  have tables := geometry.tables
  have inside := geometry.inside
  have in_table : ¬volume.fatSize32 ≤ entryOffset cluster / sectorSize :=
    not_le.mpr (geometry.lba28_fatSector valid).1
  have copies : volume.fatSize32 ≤ volume.numFats * volume.fatSize32 :=
    Nat.le_mul_of_pos_left _ geometry.copies
  have accepted : ¬(value ≠ 0 ∧ value < 0x0FFFFFF8 ∧ (!clusterValid volume value) = true) := by
    rintro ⟨-, below, invalid⟩
    rcases proper with large | good
    · omega
    · simp [good] at invalid
  rw [fatSet]
  dsimp only
  rw [Nat.mod_eq_of_lt small, if_neg (by simp [geometry.mounted, valid]), if_neg accepted,
    if_neg in_table, if_neg (by omega)]
  have first := patchSector_of_ready ready (fatSector volume cluster)
    (entryOffset cluster % sectorSize) 4 value
  have later := Later.patch drive (fatSector volume cluster) (entryOffset cluster % sectorSize) 4
    value
  generalize patchSector drive (fatSector volume cluster) (entryOffset cluster % sectorSize) 4
    value = result at first later ⊢
  obtain ⟨ok, drive'⟩ := result
  cases first
  dsimp only
  split
  next two =>
    have mirror := geometry.mirror two
    rw [if_neg (by omega)]
    exact patchSector_of_ready (later.ready ready) _ _ _ _
  next => rfl

theorem findFreeCluster_none (geometry : Geometry volume) (ready : drive.Ready)
    {remaining : Nat} (first : 2 ≤ cluster)
    (inside : cluster + remaining ≤ volume.totalClusters + 2)
    (none : (findFreeCluster volume remaining cluster drive).1 = none) :
    Quiet drive (findFreeCluster volume remaining cluster drive).2 := by
  induction remaining generalizing cluster drive with
  | zero => exact .refl ready
  | succ remaining ih =>
  have valid : clusterValid volume cluster = true := by
    simp only [clusterValid, Bool.and_eq_true, decide_eq_true_eq]
    omega
  obtain ⟨drive₁, read, quiet⟩ := fatGet_of_ready geometry ready valid
  rw [findFreeCluster, read] at none ⊢
  cases entry : entryIn volume drive.shown cluster with
  | zero =>
      rw [entry] at none
      dsimp only at none
      have set := @fatSet_of_ready volume drive₁ cluster endOfChain geometry quiet.ready valid
        (.inl (by decide)) (by decide)
      generalize fatSet volume drive₁ cluster endOfChain = result at set none
      obtain ⟨ok, drive₂⟩ := result
      cases set
      cases none
  | succ entry =>
      rw [entry] at none
      exact quiet.trans (ih quiet.ready (by omega) (by omega) none)

theorem fatAllocCluster_none (geometry : Geometry volume) (ready : drive.Ready) {drive' : Drive}
    (none : fatAllocCluster volume drive = (none, drive')) : Quiet drive drive' := by
  have quiet := @findFreeCluster_none volume drive 2 geometry ready volume.totalClusters le_rfl
    (Nat.le_of_eq (Nat.add_comm _ _))
  rw [← fatAllocCluster, none] at quiet
  exact quiet rfl

end Entries

/-! ## Appending clusters -/

/-- New clusters, which were free, are linked behind some clusters. -/
structure Appended (volume : Volume) (sectors : Set Nat) (base new : List Nat)
    (before after : Nat → ByteMemory) : Prop where
  linked : Linked volume after (base ++ new)
  valid : ∀ cluster ∈ new, clusterValid volume cluster = true
  free : ∀ cluster ∈ new, entryIn volume before cluster = 0
  ended : ∀ last ∈ new.getLast?, entryIn volume after last = endOfChain
  entries : ∀ cluster, clusterValid volume cluster = true → cluster ∉ new →
    (base.getLast? = some cluster → new = []) →
    entryIn volume after cluster = entryIn volume before cluster
  elsewhere : ∀ sector ∈ sectors, ¬TableSector volume sector → after sector = before sector

section Appending

variable {volume : Volume} {sectors : Set Nat} {drive : Drive}

/-- A free cluster is taken and linked behind the last one of a list. -/
theorem appended_one {front : List Nat} {previous next : Nat}
    {before middle after : Nat → ByteMemory} (linked : Linked volume before (front ++ [previous]))
    (nodup : (front ++ [previous]).Nodup)
    (valid : ∀ cluster ∈ front ++ [previous], clusterValid volume cluster = true)
    (used : ∀ cluster ∈ front ++ [previous], entryIn volume before cluster ≠ 0)
    (validNext : clusterValid volume next = true) (free : entryIn volume before next = 0)
    (taken : TableChange volume sectors next endOfChain before middle)
    (set : TableChange volume sectors previous next middle after) :
    Appended volume sectors (front ++ [previous]) [next] before after := by
  have usedPrevious := used previous (by simp)
  have apart : next ≠ previous := by
    intro same
    rw [same] at free
    exact usedPrevious free
  have entries : ∀ cluster, clusterValid volume cluster = true → cluster ≠ next →
      cluster ≠ previous → entryIn volume after cluster = entryIn volume before cluster := by
    intro cluster valid other other'
    rw [set.entries cluster valid, if_neg other', taken.entries cluster valid, if_neg other]
  have entryPrevious : entryIn volume after previous = next := by
    rw [set.entries previous (valid previous (by simp)), if_pos rfl]
  have entryNext : entryIn volume after next = endOfChain := by
    rw [set.entries next validNext, if_neg apart, taken.entries next validNext, if_pos rfl]
  constructor
  · -- the entries in front of the last one are the same
    rw [List.append_assoc]
    rw [Linked, List.isChain_append] at linked
    obtain ⟨earlier, -, joint⟩ := linked
    have kept : ∀ cluster ∈ front, entryIn volume after cluster = entryIn volume before cluster := by
      intro cluster mem
      apply entries
      · exact valid cluster (List.mem_append_left _ mem)
      · intro same
        rw [same] at mem
        exact used next (List.mem_append_left _ mem) free
      · intro same
        rw [same] at mem
        exact (List.nodup_append.mp nodup).2.2 previous mem previous (List.mem_singleton_self _) rfl
    apply List.isChain_append.mpr
    refine ⟨?_, ?_, ?_⟩
    · apply List.isChain_iff_getElem.mpr
      intro i below
      rw [kept _ (List.getElem_mem _)]
      exact List.isChain_iff_getElem.mp earlier i below
    · exact .cons_cons entryPrevious (.singleton _)
    · intro last mem first mem'
      cases mem'
      rw [kept last (List.mem_of_mem_getLast? mem)]
      exact joint last mem previous rfl
  · intro cluster mem
    rwa [List.mem_singleton.mp mem]
  · intro cluster mem
    rwa [List.mem_singleton.mp mem]
  · intro last mem
    cases mem
    exact entryNext
  · intro cluster valid fresh other
    apply entries cluster valid
    · exact fun same => fresh (List.mem_singleton.mpr same)
    · intro same
      subst same
      cases other List.getLast?_concat
  · intro sector inside outside
    exact (set.elsewhere sector inside outside).trans (taken.elsewhere sector inside outside)

theorem Appended.cons {base new : List Nat} {next : Nat} {before middle after : Nat → ByteMemory}
    (first : Appended volume sectors base [next] before middle)
    (rest : Appended volume sectors (base ++ [next]) new middle after) :
    Appended volume sectors base (next :: new) before after where
  linked := by
    have linked := rest.linked
    rwa [List.append_assoc] at linked
  valid := by
    intro cluster mem
    cases mem with
    | head => exact first.valid next (List.mem_singleton_self _)
    | tail _ mem => exact rest.valid cluster mem
  free := by
    intro cluster mem
    cases mem with
    | head => exact first.free next (List.mem_singleton_self _)
    | tail _ mem =>
    have free := rest.free cluster mem
    by_cases same : cluster = next
    · exact same ▸ first.free next (List.mem_singleton_self _)
    by_cases last : base.getLast? = some cluster
    · -- the last cluster of the base leads to the new one
      obtain ⟨front, rfl⟩ := List.getLast?_eq_some_iff.mp last
      have link := first.linked
      rw [Linked, List.append_assoc, List.isChain_append] at link
      have entry : entryIn volume middle cluster = next :=
        (List.isChain_cons_cons.mp link.2.1).1
      have bound := bounds_of_clusterValid (first.valid next (List.mem_singleton_self _))
      omega
    · rw [← first.entries cluster (rest.valid cluster mem)
        (fun mem => same (List.mem_singleton.mp mem)) (fun ends => absurd ends last)]
      exact free
  ended := by
    intro last mem
    cases new with
    | nil =>
        have same : next = last := Option.some.inj mem
        rw [← same, rest.entries next (first.valid next (List.mem_singleton_self _))
          List.not_mem_nil (fun _ => rfl)]
        exact first.ended next rfl
    | cons second new => exact rest.ended last (by rwa [List.getLast?_cons_cons] at mem)
  entries := by
    intro cluster valid fresh other
    rw [List.mem_cons, not_or] at fresh
    have unlast : base.getLast? ≠ some cluster := fun last => nomatch other last
    rw [rest.entries cluster valid fresh.2, first.entries cluster valid]
    · exact fun mem => fresh.1 (List.mem_singleton.mp mem)
    · exact fun last => absurd last unlast
    · intro last
      rw [List.getLast?_concat] at last
      exact absurd (Option.some.inj last).symm fresh.1
  elsewhere := by
    intro sector inside outside
    exact (rest.elsewhere sector inside outside).trans (first.elsewhere sector inside outside)

/-- The loop of `fs_extend` appends clusters until there are enough or none is free. -/
theorem appendClusters_spec (geometry : Geometry volume) (apart : Apart volume sectors)
    {count previous : Nat} {front : List Nat} {drive' : Drive} {ok : Bool} (ready : drive.Ready)
    (linked : Linked volume drive.shown (front ++ [previous]))
    (nodup : (front ++ [previous]).Nodup)
    (valid : ∀ cluster ∈ front ++ [previous], clusterValid volume cluster = true)
    (used : ∀ cluster ∈ front ++ [previous], entryIn volume drive.shown cluster ≠ 0)
    (done : appendClusters volume count previous drive = (ok, drive')) :
    drive'.Ready ∧ ∃ new : List Nat, (ok = true → new.length = count) ∧
      Appended volume sectors (front ++ [previous]) new drive.shown drive'.shown := by
  have nothing : Appended volume sectors (front ++ [previous]) [] drive.shown drive.shown := by
    refine ⟨?_, nofun, nofun, nofun, fun _ _ _ _ => rfl, fun _ _ _ => rfl⟩
    rwa [List.append_nil]
  induction count generalizing previous front drive with
  | zero =>
      cases done
      exact ⟨ready, [], fun _ => rfl, nothing⟩
  | succ count ih =>
  rw [appendClusters] at done
  cases taken : fatAllocCluster volume drive with
  | mk allocated drive₁ =>
    rw [taken] at done
    cases allocated with
    | none =>
      cases done
      have quiet := fatAllocCluster_none geometry ready taken
      exact ⟨quiet.ready, [], nofun, quiet.shown ▸ nothing⟩
    | some next =>
      dsimp only at done
      obtain ⟨validNext, free, change, ready₁⟩ :=
        fatAllocCluster_taken geometry apart ready taken
      have links := @fatSet_of_ready volume drive₁ previous next geometry ready₁
        (valid previous (by simp)) (.inr validNext) (small_of_valid geometry validNext)
      cases set : fatSet volume drive₁ previous next with
      | mk linked' drive₂ =>
      rw [set] at done links
      cases links
      dsimp only at done
      obtain ⟨change', ready₂⟩ := fatSet_changed geometry apart ready₁
        (valid previous (by simp)) validNext set
      have first := appended_one linked nodup valid used validNext free change
        change'
      have fresh : next ∉ front ++ [previous] := fun mem => used next mem free
      have nodup' : (front ++ [previous] ++ [next]).Nodup :=
        List.nodup_append.mpr ⟨nodup, List.nodup_singleton _, fun a mem b mem' same =>
          fresh (List.mem_singleton.mp mem' ▸ same ▸ mem)⟩
      have valid' : ∀ cluster ∈ front ++ [previous] ++ [next],
          clusterValid volume cluster = true := by
        intro cluster mem
        cases List.mem_append.mp mem with
        | inl old => exact valid cluster old
        | inr new => exact first.valid cluster new
      have used' : ∀ cluster ∈ front ++ [previous] ++ [next],
          entryIn volume drive₂.shown cluster ≠ 0 := by
        apply used_of_linked first.linked valid'
        intro last ends
        rw [List.getLast?_concat] at ends
        rw [← Option.some.inj ends, first.ended next rfl]
        decide
      obtain ⟨ready', new, length, rest⟩ := ih ready₂
        first.linked nodup' valid' used' done
        ⟨by rw [List.append_nil]; exact first.linked, nofun, nofun, nofun,
          fun _ _ _ _ => rfl, fun _ _ _ => rfl⟩
      exact ⟨ready', next :: new, fun ok => congrArg (· + 1) (length ok), first.cons rest⟩

end Appending

/-! ## Extending a file -/

/-- How many clusters the size of a file needs.  A file without contents may have one. -/
def neededClusters (volume : Volume) (size : Nat) : Nat :=
  max 1 ((size + clusterSize volume - 1) / clusterSize volume)

/-- What `fs_extend` does: the file has a chain again, which begins as before as far as its size
goes, and otherwise has clusters that were free. -/
structure Extended (volume : Volume) (sectors : Set Nat) (file file' : File)
    (clusters clusters' : List Nat) (before after : Nat → ByteMemory) : Prop where
  chain : FileChain volume after file' clusters'
  same : file' = { file with cluster := file'.cluster }
  first : clusterValid volume file.cluster = true → file'.cluster = file.cluster
  shared : clusters'.take (min clusters.length (neededClusters volume file.size)) =
    clusters.take (min clusters.length (neededClusters volume file.size))
  members : ∀ cluster ∈ clusters', cluster ∈ clusters ∨ entryIn volume before cluster = 0
  entries : ∀ cluster, clusterValid volume cluster = true → entryIn volume before cluster ≠ 0 →
    cluster ∉ clusters → entryIn volume after cluster = entryIn volume before cluster
  elsewhere : ∀ sector ∈ sectors, ¬TableSector volume sector → after sector = before sector

section Extending

variable {volume : Volume} {sectors : Set Nat} {drive drive' : Drive} {file file' : File}
  {clusters new : List Nat} {before after : Nat → ByteMemory} {count : Nat} {ok : Bool}

theorem Appended.fileChain (geometry : Geometry volume)
    (chain : FileChain volume before file clusters) (positive : 0 < count)
    (covers : file.size ≤ count * clusterSize volume) (within : count ≤ clusters.length)
    (appended : Appended volume sectors (clusters.take count) new before after) :
    ∃ clusters', FileChain volume after file clusters' ∧
      clusters'.take count = clusters.take count ∧ count + new.length ≤ clusters'.length ∧
      ∀ cluster ∈ clusters', cluster ∈ clusters ∨ cluster ∈ new := by
  have length : (clusters.take count).length = count := List.length_take_of_le within
  by_cases none : new = []
  · subst none
    refine ⟨clusters, ?_, rfl, within, fun _ mem => .inl mem⟩
    apply chain.congr
    intro cluster mem
    exact appended.entries cluster (chain.valid cluster mem) List.not_mem_nil fun _ => rfl
  have valid : ∀ cluster ∈ clusters.take count ++ new, clusterValid volume cluster = true := by
    intro cluster mem
    cases List.mem_append.mp mem with
    | inl old => exact chain.valid cluster (List.mem_of_mem_take old)
    | inr fresh => exact appended.valid cluster fresh
  have ended : ∀ last ∈ (clusters.take count ++ new).getLast?,
      entryIn volume after last = endOfChain := by
    intro last ends
    rw [List.getLast?_append_of_ne_nil _ none] at ends
    exact appended.ended last ends
  refine ⟨clusters.take count ++ new, ⟨?_, ?_, ?_⟩, ?_, ?_, ?_⟩
  · apply chain_of_linked appended.linked
    · have first : (clusters.take count ++ new).head? = clusters.head? := by
        rw [List.head?_append, List.head?_take, if_neg positive.ne']
        cases clusters with
        | nil => exact absurd within (Nat.not_le.mpr positive)
        | cons first clusters => rfl
      rw [first, chain.head]
    · exact valid
    · intro last ends
      rw [linkIn, ended last ends, geometry.endOfChain_invalid]
      rfl
  · apply used_of_linked appended.linked valid
    intro last ends
    rw [ended last ends]
    decide
  · rw [List.length_append, length, Nat.add_mul]
    exact covers.trans (Nat.le_add_right _ _)
  · exact List.take_left' length
  · rw [List.length_append, length]
  · intro cluster mem
    exact (List.mem_append.mp mem).imp_left List.mem_of_mem_take

/-- A link of some clusters is followed. -/
theorem Linked.fatGet (geometry : Geometry volume) (linked : Linked volume drive.shown clusters)
    (valid : ∀ cluster ∈ clusters, clusterValid volume cluster = true) (ready : drive.Ready)
    {i : Nat} (inside : i + 1 < clusters.length) :
    ∃ drive', Charis.Fs.fatGet volume drive clusters[i] = (clusters[i + 1], drive') ∧
      Quiet drive drive' := by
  obtain ⟨drive', read, quiet⟩ := fatGet_of_ready geometry ready (valid _ (List.getElem_mem _))
  refine ⟨drive', ?_, quiet⟩
  rw [read]
  exact congrArg (·, drive') (List.isChain_iff_getElem.mp linked i inside)

theorem lastCluster_eq (geometry : Geometry volume) (linked : Linked volume drive.shown clusters)
    (valid : ∀ cluster ∈ clusters, clusterValid volume cluster = true) (ready : drive.Ready)
    {i : Nat} (inside : i + count < clusters.length) :
    ∃ drive', lastCluster volume count clusters[i] drive = (some clusters[i + count], drive') ∧
      Quiet drive drive' := by
  induction count generalizing i drive with
  | zero => exact ⟨drive, rfl, .refl ready⟩
  | succ count ih =>
  obtain ⟨drive₁, followed, quiet⟩ := linked.fatGet geometry valid ready
    (show i + 1 < clusters.length by omega)
  obtain ⟨drive₂, reached, quiet'⟩ := @ih drive₁ (quiet.shown ▸ linked) quiet.ready (i + 1)
    (by omega)
  refine ⟨drive₂, ?_, quiet.trans quiet'⟩
  have next := valid clusters[i + 1] (List.getElem_mem _)
  rw [lastCluster, followed]
  dsimp only
  rw [if_neg (by simp [next]), reached]
  simp only [Nat.add_assoc, Nat.add_comm 1]

/-- The loop of `fs_write` to the cluster of the position. -/
theorem skipWrite_eq (geometry : Geometry volume) (linked : Linked volume drive.shown clusters)
    (valid : ∀ cluster ∈ clusters, clusterValid volume cluster = true) (ready : drive.Ready)
    {i : Nat} (inside : i + count < clusters.length) :
    ∃ drive', skipWrite volume count clusters[i] drive = (some clusters[i + count], drive') ∧
      Quiet drive drive' := by
  induction count generalizing i drive with
  | zero => exact ⟨drive, rfl, .refl ready⟩
  | succ count ih =>
  obtain ⟨drive₁, followed, quiet⟩ := linked.fatGet geometry valid ready
    (show i + 1 < clusters.length by omega)
  obtain ⟨drive₂, reached, quiet'⟩ := @ih drive₁ (quiet.shown ▸ linked) quiet.ready (i + 1)
    (by omega)
  refine ⟨drive₂, ?_, quiet.trans quiet'⟩
  have next := bounds_of_clusterValid (valid clusters[i + 1] (List.getElem_mem _))
  have limit := geometry.clusters
  rw [skipWrite, followed]
  dsimp only
  rw [if_neg (by omega), reached]
  simp only [Nat.add_assoc, Nat.add_comm 1]

theorem le_ceil_mul {size : Nat} (positive : 0 < size) (a : Nat) :
    a ≤ (a + size - 1) / size * size := by
  have split := Nat.div_add_mod (a + size - 1) size
  have below := Nat.mod_lt (a + size - 1) positive
  rw [Nat.mul_comm] at split
  omega

theorem ceil_le {size a k : Nat} (positive : 0 < size) (fits : a ≤ k * size) :
    (a + size - 1) / size ≤ k := by
  apply Nat.le_of_lt_succ
  rw [Nat.div_lt_iff_lt_mul positive, Nat.succ_mul]
  omega

theorem FileChain.needed_le (chain : FileChain volume before file clusters)
    (positive : 0 < clusterSize volume) (some : clusters ≠ []) :
    neededClusters volume file.size ≤ clusters.length :=
  max_le (List.length_pos_iff.mpr some) (ceil_le positive chain.covers)

theorem le_neededClusters (positive : 0 < clusterSize volume) (size : Nat) :
    size ≤ neededClusters volume size * clusterSize volume :=
  (le_ceil_mul positive size).trans (Nat.mul_le_mul_right _ (le_max_right _ _))

/-- The chain of a file with clusters is extended. -/
theorem extended_of_append (geometry : Geometry volume) (apart : Apart volume sectors)
    (ready : drive.Ready) (chain : FileChain volume drive.shown file clusters)
    (some : clusters ≠ []) {last : Nat}
    (ends : clusters[neededClusters volume file.size - 1]? = Option.some last)
    (done : appendClusters volume count last drive = (ok, drive')) :
    drive'.Ready ∧ ∃ clusters', Extended volume sectors file file clusters clusters' drive.shown
        drive'.shown ∧
      (ok = true → neededClusters volume file.size + count ≤ clusters'.length) := by
  have positive : 0 < clusterSize volume := Nat.mul_pos geometry.perCluster (by decide)
  have within := chain.needed_le positive some
  have one : 0 < neededClusters volume file.size := le_max_left 1 _
  have base : clusters.take (neededClusters volume file.size) =
      clusters.take (neededClusters volume file.size - 1) ++ [last] := by
    have split := @List.take_add_one _ clusters (neededClusters volume file.size - 1)
    rw [Nat.sub_add_cancel one, ends] at split
    exact split
  have sub := List.take_subset (neededClusters volume file.size) clusters
  obtain ⟨ready', new, length, appended⟩ := appendClusters_spec geometry apart ready
    (base ▸ chain.linked.take _) (base ▸ chain.nodup.sublist (List.take_sublist _ _))
    (base ▸ fun cluster mem => chain.valid cluster (sub mem))
    (base ▸ fun cluster mem => chain.used cluster (sub mem)) done
  rw [← base] at appended
  obtain ⟨clusters', chain', shared, longer, members⟩ :=
    appended.fileChain geometry chain one (le_neededClusters positive _) within
  refine ⟨ready', clusters', ⟨chain', rfl, fun _ => rfl, ?_, ?_, ?_, appended.elsewhere⟩,
    fun ok => length ok ▸ longer⟩
  · rw [min_eq_right within]
    exact shared
  · intro cluster mem
    exact (members cluster mem).imp_right (appended.free cluster)
  · intro cluster valid used other
    apply appended.entries cluster valid
    · exact fun mem => used (appended.free cluster mem)
    · intro ends
      exact absurd (sub (List.mem_of_getLast? ends)) other

/-- The first cluster of an empty file is allocated, and others behind it. -/
theorem extended_of_first (geometry : Geometry volume) (apart : Apart volume sectors)
    (ready : drive.Ready) (invalid : clusterValid volume file.cluster ≠ true)
    (chain : FileChain volume drive.shown file clusters) {drive₁ : Drive} {first : Nat}
    (taken : fatAllocCluster volume drive = (some first, drive₁))
    (done : appendClusters volume count first drive₁ = (ok, drive')) :
    drive'.Ready ∧ ∃ clusters', Extended volume sectors file { file with cluster := first } clusters
        clusters' drive.shown drive'.shown ∧ (ok = true → 1 + count ≤ clusters'.length) := by
  obtain ⟨valid, free, change, ready₁⟩ := fatAllocCluster_taken geometry apart ready taken
  have none : clusters = [] := by
    have head := chain.head
    rw [startOf, if_neg invalid] at head
    exact List.head?_eq_none_iff.mp head
  subst none
  have empty : file.size = 0 := by
    have covers := chain.covers
    rwa [List.length_nil, Nat.zero_mul, Nat.le_zero] at covers
  have entry : entryIn volume drive₁.shown first = endOfChain := by
    rw [change.entries first valid, if_pos rfl]
  have alone : FileChain volume drive₁.shown { file with cluster := first } [first] := by
    constructor
    · refine ⟨startOf_of_valid valid, ?_⟩
      rw [linkIn, entry, geometry.endOfChain_invalid]
      rfl
    · intro cluster mem
      rw [List.mem_singleton.mp mem, entry]
      decide
    · dsimp only
      rw [empty]
      exact Nat.zero_le _
  obtain ⟨ready', new, length, appended⟩ := @appendClusters_spec volume sectors drive₁ geometry
    apart count first [] drive' ok ready₁ alone.linked alone.nodup alone.valid alone.used done
  obtain ⟨clusters', chain', -, longer, members⟩ :=
    @Appended.fileChain volume sectors _ _ new _ _ 1 geometry alone Nat.one_pos
      (by dsimp only; omega) le_rfl appended
  have unfree : ∀ cluster ∈ new, cluster ≠ first := by
    intro cluster mem same
    have zero := appended.free cluster mem
    rw [same, entry] at zero
    cases zero
  refine ⟨ready', clusters', ⟨chain', rfl, fun valid => absurd valid invalid, ?_, ?_, ?_, ?_⟩,
    fun ok => length ok ▸ longer⟩
  · rw [List.length_nil, Nat.zero_min, List.take_zero, List.take_zero]
  · intro cluster mem
    right
    rcases members cluster mem with old | fresh
    · rw [List.mem_singleton.mp old]
      exact free
    · have zero := appended.free cluster fresh
      rwa [change.entries cluster (appended.valid cluster fresh),
        if_neg (unfree cluster fresh)] at zero
  · intro cluster valid' used _
    have other : cluster ≠ first := fun same => used (same ▸ free)
    have kept := change.entries cluster valid'
    rw [if_neg other] at kept
    rw [← kept]
    apply appended.entries cluster valid'
    · intro mem
      rw [← kept] at used
      exact used (appended.free cluster mem)
    · intro ends
      exact absurd (Option.some.inj ends).symm other
  · intro sector inside outside
    exact (appended.elsewhere sector inside outside).trans (change.elsewhere sector inside outside)

theorem Extended.of_chain (chain : FileChain volume drive.shown file clusters) :
    Extended volume sectors file file clusters clusters drive.shown drive.shown where
  chain := chain
  same := rfl
  first := fun _ => rfl
  shared := rfl
  members := fun _ member => .inl member
  entries := fun _ _ _ _ => rfl
  elsewhere := fun _ _ _ => rfl

theorem FileChain.first (chain : FileChain volume disk file clusters)
    (valid : clusterValid volume file.cluster = true) : clusters[0]? = some file.cluster := by
  rw [← List.head?_eq_getElem?, chain.head, startOf_of_valid valid]

/-- `fs_extend` finds the last cluster that the contents need. -/
theorem FileChain.lastCluster_eq (geometry : Geometry volume)
    (chain : FileChain volume drive.shown file clusters) (ready : drive.Ready)
    (valid : clusterValid volume file.cluster = true)
    (nonempty : (file.size + clusterSize volume - 1) / clusterSize volume ≠ 0) :
    ∃ last drive', lastCluster volume
        ((file.size + clusterSize volume - 1) / clusterSize volume - 1) file.cluster drive =
          (some last, drive') ∧ Quiet drive drive' ∧
      clusters[neededClusters volume file.size - 1]? = some last := by
  have first := chain.first valid
  have within := chain.needed_le (Nat.mul_pos geometry.perCluster (by decide)) (by
    rintro rfl
    cases first)
  have many : neededClusters volume file.size =
      (file.size + clusterSize volume - 1) / clusterSize volume :=
    max_eq_right (Nat.pos_of_ne_zero nonempty)
  have inside : 0 + ((file.size + clusterSize volume - 1) / clusterSize volume - 1) <
      clusters.length := by omega
  obtain ⟨drive', reached, quiet⟩ :=
    Charis.Fs.lastCluster_eq geometry chain.linked chain.valid ready inside
  obtain ⟨_, start⟩ := List.getElem?_eq_some_iff.mp first
  rw [start] at reached
  refine ⟨_, drive', reached, quiet, ?_⟩
  rw [List.getElem?_eq_some_iff]
  refine ⟨by omega, ?_⟩
  simp only [many, Nat.zero_add]

/-- `fs_extend` gives a file a chain for what is to be written.  Where it fails the chain may have
got longer. -/
theorem fsExtend_extended (geometry : Geometry volume) (apart : Apart volume sectors)
    (ready : drive.Ready) (chain : FileChain volume drive.shown file clusters) {needed : Nat}
    (some : 0 < needed) (done : fsExtend volume file needed drive = (ok, file', drive')) :
    drive'.Ready ∧ ∃ clusters',
      Extended volume sectors file file' clusters clusters' drive.shown drive'.shown ∧
        (ok = true → file.pos + needed < 2 ^ 32 ∧
          file.pos + needed ≤ clusters'.length * clusterSize volume) := by
  have positive : 0 < clusterSize volume := Nat.mul_pos geometry.perCluster (by decide)
  have target : 0 < (file.pos + needed + clusterSize volume - 1) / clusterSize volume := by
    apply Nat.div_pos _ positive
    omega
  have reaches := @le_ceil_mul (clusterSize volume) positive (file.pos + needed)
  rw [fsExtend] at done
  dsimp only at done
  split at done
  · cases done
    exact ⟨ready, clusters, .of_chain chain, nofun⟩
  next fits =>
  have below : file.pos + needed < 2 ^ 32 := by omega
  split at done
  · cases done
    exact ⟨ready, clusters, .of_chain chain, nofun⟩
  suffices reached : drive'.Ready ∧ ∃ clusters',
      Extended volume sectors file file' clusters clusters' drive.shown drive'.shown ∧
        (ok = true →
          (file.pos + needed + clusterSize volume - 1) / clusterSize volume ≤ clusters'.length) by
    obtain ⟨ready', clusters', extended, enough⟩ := reached
    exact ⟨ready', clusters', extended, fun ok =>
      ⟨below, reaches.trans (Nat.mul_le_mul_right _ (enough ok))⟩⟩
  by_cases valid : clusterValid volume file.cluster = true
  · have first := chain.first valid
    have filled : clusters ≠ [] := by
      rintro rfl
      cases first
    split at done
    · next empty =>
      -- a file without contents has a cluster already
      rw [firstCluster, if_pos valid] at done
      dsimp only at done
      have one : neededClusters volume file.size = 1 := by
        rw [neededClusters, empty]
        rfl
      generalize appended : appendClusters volume _ file.cluster drive = result at done
      obtain ⟨ok, drive₁⟩ := result
      cases done
      obtain ⟨ready', clusters', extended, enough⟩ :=
        extended_of_append geometry apart ready chain filled (by rw [one]; exact first) appended
      rw [one] at enough
      exact ⟨ready', clusters', extended, fun ok => le_trans (by omega) (enough ok)⟩
    next nonempty =>
    rw [if_neg (by simp [valid])] at done
    have many : neededClusters volume file.size =
        (file.size + clusterSize volume - 1) / clusterSize volume :=
      max_eq_right (Nat.pos_of_ne_zero nonempty)
    obtain ⟨last, drive₁, reached, quiet, there⟩ :=
      chain.lastCluster_eq geometry ready valid nonempty
    rw [reached] at done
    dsimp only at done
    generalize appended : appendClusters volume _ _ drive₁ = result at done
    obtain ⟨ok, drive₂⟩ := result
    cases done
    obtain ⟨ready', clusters', extended, enough⟩ :=
      extended_of_append geometry apart quiet.ready (quiet.shown ▸ chain) filled there appended
    rw [quiet.shown] at extended
    exact ⟨ready', clusters', extended, fun ok => le_trans (by omega) (enough ok)⟩
  split at done
  · rw [firstCluster, if_neg valid] at done
    cases taken : fatAllocCluster volume drive with
    | mk allocated drive₁ =>
    rw [taken] at done
    cases allocated with
    | none =>
        cases done
        have quiet := fatAllocCluster_none geometry ready taken
        rw [quiet.shown]
        exact ⟨quiet.ready, clusters, .of_chain chain, nofun⟩
    | some first =>
    dsimp only at done
    generalize appended : appendClusters volume _ first drive₁ = result at done
    obtain ⟨ok, drive₂⟩ := result
    cases done
    obtain ⟨ready', clusters', extended, enough⟩ :=
      extended_of_first geometry apart ready valid chain taken appended
    exact ⟨ready', clusters', extended, fun ok => le_trans (by omega) (enough ok)⟩
  · rw [if_pos (by simpa using valid)] at done
    cases done
    exact ⟨ready, clusters, .of_chain chain, nofun⟩

end Extending

end Charis.Fs
