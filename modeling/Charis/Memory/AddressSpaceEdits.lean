import Charis.Memory.AddressSpace

/-!
# Edits of address spaces

The kernel edits a well-formed tree in three ways.  It gives a slot a new table
that spells out what the slot meant before, which no translation can tell; it
sets the user bit of an entry that links a table, which no translation can tell
either; or it replaces the entry of a page, which changes that page only.
-/

namespace Charis.Memory

open Charis.Lib
open Charis.Lib.RadixTree
open Entry

/-- The entries that the table below a slot has, or would have: those of the
table that the slot links, the pages of a 2 MiB leaf, or nothing. -/
def entryBelow (memory : ByteMemory) (entry : Entry) (slot : Fin 512) : Entry :=
  if present entry then
    if huge entry then splitEntry entry slot
    else readEntry memory (tableAddress entry) slot
  else 0#64

/-- Slot `index` of the table `parent`, reached by `path`, receives the page
`fresh` of the allocator as its table. -/
structure Spelled (machine machine' : Machine) (root : Nat) (path : List (Fin 512))
    (index : Fin 512) (parent fresh : Nat) (link : Entry) : Prop where
  short : path.length ≤ 2
  reached : tableAt machine.memory root path = some parent
  taken : Pmm.Takes machine.pmm machine'.pmm fresh
  linked : readEntry machine'.memory parent index = link
  content : ∀ slot, readEntry machine'.memory fresh slot =
    entryBelow machine.memory (readEntry machine.memory parent index) slot
  kept : ∀ table slot, table % 4096 = 0 → table ≠ fresh →
    (table, slot) ≠ (parent, index) →
    readEntry machine'.memory table slot = readEntry machine.memory table slot
  outside : ∀ page, page % 4096 = 0 → page ≠ fresh → page ≠ parent →
    ByteMemory.AgreeOn machine'.memory machine.memory page (page + 4096)
  link_present : present link = true
  link_small : huge link = false
  link_writable : writable link = true
  link_high : HighClear link
  link_frame : frame link = fresh
  link_user : user link =
    (present (readEntry machine.memory parent index) &&
      user (readEntry machine.memory parent index))

namespace Spelled

variable {machine machine' : Machine} {root : Nat} {path : List (Fin 512)}
  {index : Fin 512} {parent fresh : Nat} {link : Entry}
  (valid : WellFormed machine root)
  (step : Spelled machine machine' root path index parent fresh link)

include valid step

theorem fresh_apart {query : List (Fin 512)} (short : query.length ≤ 3) :
    tableAt machine.memory root query ≠ some fresh :=
  fun reached => valid.owned query fresh short reached step.taken.1

/-- Entries at other positions of the old tree are kept. -/
theorem kept_at {query : List (Fin 512)} {table : Nat} {slot : Fin 512}
    (short : query.length ≤ 3)
    (reached : tableAt machine.memory root query = some table)
    (elsewhere : (query, slot) ≠ (path, index)) :
    readEntry machine'.memory table slot = readEntry machine.memory table slot := by
  apply step.kept table slot (valid.table_aligned short reached)
  · rintro rfl
    exact step.fresh_apart valid short reached
  · intro same
    cases same
    have shortPath := step.short
    have samePath := valid.path_eq short (by omega) reached step.reached
    exact elsewhere (by rw [samePath])

theorem relink :
    Relink 3 (child machine.memory) (child machine'.memory) root path index parent
      fresh where
  short := by
    have := step.short
    omega
  reached := step.reached
  linked := by
    rw [child_eq_some_iff, step.linked]
    exact ⟨step.link_present, step.link_small,
      (tableAddress_eq_frame step.link_high).trans step.link_frame⟩
  fresh_apart := fun query short => step.fresh_apart valid short
  kept := fun query node short reached slot elsewhere =>
    child_congr (step.kept_at valid (by omega) reached elsewhere)
  inherits := by
    intro deep slot
    have content := step.content slot
    cases used : present (readEntry machine.memory parent index) with
    | false =>
        simp only [entryBelow, used, Bool.false_eq_true, ↓reduceIte] at content
        rw [child_eq_none_of_not_present (by rw [content]; rfl),
          child_eq_none_of_not_present used]
        rfl
    | true =>
        have small := valid.no_gigabyte path parent index (by omega) step.reached used
        simp only [entryBelow, used, small, Bool.false_eq_true, ↓reduceIte] at content
        rw [child_congr content, child_eq_some_iff.mpr ⟨used, small, rfl⟩]
        rfl

/-- The new table is found at its position and nothing else moves. -/
theorem tableAt_eq (query : List (Fin 512)) (short : query.length ≤ 3) :
    tableAt machine'.memory root query =
      if query = path ++ [index] then some fresh
      else tableAt machine.memory root query :=
  (step.relink valid).descend_eq query short

/-- A position of the new tree is the new table or one of the old tree. -/
theorem position_cases {query : List (Fin 512)} {table : Nat} (short : query.length ≤ 3)
    (reached : tableAt machine'.memory root query = some table) :
    (query = path ++ [index] ∧ table = fresh) ∨
      (query ≠ path ++ [index] ∧ tableAt machine.memory root query = some table) := by
  rw [step.tableAt_eq valid query short] at reached
  split at reached
  · next here =>
      cases reached
      exact .inl ⟨here, rfl⟩
  · next elsewhere => exact .inr ⟨elsewhere, reached⟩

omit valid in
/-- The table that the slot linked before, if it did, had the entries of the new
one. -/
theorem content_of_reached {old : Nat} (slot : Fin 512)
    (reached : tableAt machine.memory root (path ++ [index]) = some old) :
    readEntry machine'.memory fresh slot = readEntry machine.memory old slot := by
  rw [tableAt_snoc step.reached] at reached
  obtain ⟨used, small, rfl⟩ := child_eq_some_iff.mp reached
  simp [step.content, entryBelow, used, small]

omit valid in
/-- Entries of the new table that are present come from the table that the slot
linked before or from the large leaf it held. -/
theorem content_cases {slot : Fin 512}
    (used : present (readEntry machine'.memory fresh slot) = true) :
    (∃ old, tableAt machine.memory root (path ++ [index]) = some old ∧
      readEntry machine'.memory fresh slot = readEntry machine.memory old slot) ∨
    (IsLeaf path.length (readEntry machine.memory parent index) ∧
      huge (readEntry machine.memory parent index) = true ∧
      readEntry machine'.memory fresh slot =
        splitEntry (readEntry machine.memory parent index) slot) := by
  have content := step.content slot
  simp only [entryBelow] at content
  split at content
  · next here =>
      split at content
      · next large => exact .inr ⟨⟨here, .inr large⟩, large, content⟩
      · next small =>
          refine .inl ⟨_, ?_, content⟩
          rw [tableAt_snoc step.reached]
          exact child_eq_some_iff.mpr ⟨here, by simpa using small, rfl⟩
  · rw [content] at used
    cases used

/-- An entry that linked a table for user accesses still does. -/
theorem user_kept {above : List (Fin 512)} {slot : Fin 512} {old new : Nat}
    (short : above.length ≤ 3)
    (oldReached : tableAt machine.memory root above = some old)
    (newReached : tableAt machine'.memory root above = some new)
    (used : present (readEntry machine.memory old slot) = true)
    (access : user (readEntry machine.memory old slot) = true) :
    user (readEntry machine'.memory new slot) = true := by
  rcases step.position_cases valid short newReached with ⟨rfl, rfl⟩ | ⟨-, same⟩
  · rw [step.content_of_reached slot oldReached]
    exact access
  · rw [oldReached] at same
    cases same
    by_cases here : (above, slot) = (path, index)
    · cases here
      rw [step.reached] at oldReached
      cases oldReached
      rw [step.linked, step.link_user, used, access]
      rfl
    · rw [step.kept_at valid short oldReached here]
      exact access

/-- What is above a leaf of the old tree stays open. -/
theorem above_kept {query above below : List (Fin 512)} {slot leafSlot : Fin 512}
    {old new : Nat} (short : query.length ≤ 3)
    (oldReached : tableAt machine.memory root query = some old)
    (leaf : IsLeaf query.length (readEntry machine.memory old leafSlot))
    (access : user (readEntry machine.memory old leafSlot) = true)
    (split : query = above ++ slot :: below)
    (newReached : tableAt machine'.memory root above = some new) :
    user (readEntry machine'.memory new slot) = true := by
  subst split
  obtain ⟨upperTable, here⟩ := prefix_reached oldReached
  have used := present_of_reached oldReached here
  have opened := valid.user_open _ old leafSlot short oldReached leaf access
    above slot below upperTable rfl here
  simp only [List.length_append, List.length_cons] at short
  exact step.user_kept valid (by omega) here newReached used opened

theorem user_open' {query : List (Fin 512)} {table : Nat} {slot : Fin 512}
    (short : query.length ≤ 3)
    (reached : tableAt machine'.memory root query = some table)
    (leaf : IsLeaf query.length (readEntry machine'.memory table slot))
    (access : user (readEntry machine'.memory table slot) = true)
    {above below : List (Fin 512)} {upperSlot : Fin 512} {upperTable : Nat}
    (split : query = above ++ upperSlot :: below)
    (here : tableAt machine'.memory root above = some upperTable) :
    user (readEntry machine'.memory upperTable upperSlot) = true := by
  rcases step.position_cases valid short reached with ⟨rfl, rfl⟩ | ⟨elsewhere, old⟩
  · -- a leaf of the new table: it was a leaf of the old table or a page of a large leaf
    rcases step.content_cases leaf.1 with ⟨old, link, same⟩ | ⟨large, -, same⟩
    · rw [same] at leaf access
      exact step.above_kept valid short link leaf access split here
    rw [same, user_splitEntry] at access
    have shortPath := step.short
    rcases List.eq_nil_or_concat below with rfl | ⟨rest, last, rfl⟩
    · obtain ⟨rfl, sameSlot⟩ := List.append_inj' split rfl
      cases sameSlot
      have parentHere := step.tableAt_eq valid path (by omega)
      rw [if_neg (by simp), here, step.reached] at parentHere
      cases parentHere
      rw [step.linked, step.link_user, large.1, access]
      rfl
    · have regroup : path ++ [index] = (above ++ upperSlot :: rest) ++ [last] := by
        rw [split]
        simp
      obtain ⟨prefixEq, -⟩ := List.append_inj' regroup rfl
      exact step.above_kept valid (by omega) step.reached large access prefixEq here
  · by_cases same : (query, slot) = (path, index)
    · cases same
      rw [step.reached] at old
      cases old
      have shortPath := step.short
      rcases leaf.2 with deep | large
      · omega
      · rw [step.linked, step.link_small] at large
        cases large
    · rw [step.kept_at valid short old same] at leaf access
      exact step.above_kept valid short old leaf access split here

theorem wellFormed : WellFormed machine' root where
  root_aligned := valid.root_aligned
  unshared := (step.relink valid).unshared valid.unshared
  owned := by
    intro query table short reached free
    have free' := (step.taken.2 table).mp free
    rcases step.position_cases valid short reached with ⟨rfl, rfl⟩ | ⟨-, old⟩
    · exact free'.2 rfl
    · exact valid.owned query table short old free'.1
  upper := by
    intro query table slot short reached used
    rcases step.position_cases valid (by omega) reached with ⟨rfl, rfl⟩ | ⟨-, old⟩
    · rcases step.content_cases used with ⟨old, link, same⟩ | ⟨leaf, large, -⟩
      · rw [same] at used ⊢
        exact valid.upper _ old slot short link used
      · simp only [List.length_append, List.length_singleton] at short
        have small := valid.no_gigabyte path parent index (by omega) step.reached leaf.1
        rw [small] at large
        cases large
    · by_cases here : (query, slot) = (path, index)
      · cases here
        rw [step.reached] at old
        cases old
        rw [step.linked]
        exact ⟨step.link_writable, step.link_high⟩
      · rw [step.kept_at valid (by omega) old here] at used ⊢
        exact valid.upper query table slot short old used
  no_gigabyte := by
    intro query table slot short reached used
    rcases step.position_cases valid (by omega) reached with ⟨rfl, rfl⟩ | ⟨-, old⟩
    · rcases step.content_cases used with ⟨old, link, same⟩ | ⟨leaf, large, -⟩
      · rw [same] at used ⊢
        exact valid.no_gigabyte _ old slot short link used
      · simp only [List.length_append, List.length_singleton] at short
        have small := valid.no_gigabyte path parent index (by omega) step.reached leaf.1
        rw [small] at large
        cases large
    · by_cases here : (query, slot) = (path, index)
      · cases here
        rw [step.reached] at old
        cases old
        rw [step.linked]
        exact step.link_small
      · rw [step.kept_at valid (by omega) old here] at used ⊢
        exact valid.no_gigabyte query table slot short old used
  large_closed := by
    intro query table slot short reached used large
    rcases step.position_cases valid (by omega) reached with ⟨rfl, rfl⟩ | ⟨-, old⟩
    · rcases step.content_cases used with ⟨old, link, same⟩ | ⟨leaf, parentLarge, -⟩
      · rw [same] at used large ⊢
        exact valid.large_closed _ old slot short link used large
      · simp only [List.length_append, List.length_singleton] at short
        have small := valid.no_gigabyte path parent index (by omega) step.reached leaf.1
        rw [small] at parentLarge
        cases parentLarge
    · by_cases here : (query, slot) = (path, index)
      · cases here
        rw [step.reached] at old
        cases old
        rw [step.linked, step.link_small] at large
        cases large
      · rw [step.kept_at valid (by omega) old here] at used large ⊢
        exact valid.large_closed query table slot short old used large
  user_open := by
    intro query table slot short reached leaf access above upperSlot below upperTable
      split here
    exact step.user_open' valid short reached leaf access split here

/-- A slot of a page directory that holds no link is read as a large leaf. -/
theorem leafView_below_directory {first second third last : Fin 512}
    (here : path ++ [index] = [first, second, third]) :
    leafView machine'.memory root first second third last =
      leafView machine.memory root first second third last := by
  have newTable := step.tableAt_eq valid [first, second, third] (by simp)
  rw [if_pos here.symm] at newTable
  have splitPath : path = [first, second] ∧ index = third := by
    have regroup : path ++ [index] = [first, second] ++ [third] := here
    obtain ⟨prefixEq, lastEq⟩ := List.append_inj' regroup rfl
    exact ⟨prefixEq, by simpa using lastEq⟩
  obtain ⟨rfl, rfl⟩ := splitPath
  have link := tableAt_snoc step.reached index
  simp only [List.cons_append, List.nil_append] at link
  simp only [leafView, newTable, link, step.reached]
  have content := step.content last
  simp only [entryBelow] at content
  cases used : present (readEntry machine.memory parent index) with
  | false =>
      simp only [used, Bool.false_eq_true, ↓reduceIte] at content
      rw [child_eq_none_of_not_present used]
      simp [pageView, hugeView, used, content]
  | true =>
  cases large : huge (readEntry machine.memory parent index) with
  | true =>
      simp only [used, large, ↓reduceIte] at content
      rw [child_eq_none_of_huge large]
      simp only [pageView, hugeView, content, present_splitEntry, used, ↓reduceIte,
        combine_splitEntry]
  | false =>
      simp only [used, large, Bool.false_eq_true, ↓reduceIte] at content
      rw [child_eq_some_iff.mpr ⟨used, large, rfl⟩]
      simp only [content]

/-- No translation can tell that a slot was spelled out. -/
theorem leafView_eq (first second third last : Fin 512) :
    leafView machine'.memory root first second third last =
      leafView machine.memory root first second third last := by
  by_cases here : path ++ [index] = [first, second, third]
  · exact step.leafView_below_directory valid here
  have deepTable := step.tableAt_eq valid [first, second, third] (by simp)
  rw [if_neg (fun same => here same.symm)] at deepTable
  simp only [leafView, deepTable]
  cases deep : tableAt machine.memory root [first, second, third] with
  | some pt =>
      -- the slots of page tables are kept, since the edited slot is above them
      have shortPath := step.short
      simp only
      rw [step.kept_at valid (by simp) deep]
      intro same
      cases same
      simp at shortPath
  | none =>
  have middleTable := step.tableAt_eq valid [first, second] (by simp)
  by_cases directory : path ++ [index] = [first, second]
  · rw [if_pos directory.symm] at middleTable
    simp only [middleTable]
    cases used : present (readEntry machine'.memory fresh third) with
    | false =>
        cases old : tableAt machine.memory root [first, second] with
        | none => simp [hugeView, used]
        | some pd =>
            rw [← directory] at old
            rw [step.content_of_reached third old] at used
            simp [hugeView, used, step.content_of_reached third old]
    | true =>
    rcases step.content_cases used with ⟨old, link, same⟩ | ⟨leaf, large, -⟩
    · rw [directory] at link
      simp only [link, same]
    · have lengths := congrArg List.length directory
      simp only [List.length_append, List.length_cons, List.length_nil] at lengths
      have small :=
        valid.no_gigabyte path parent index (by omega) step.reached leaf.1
      rw [small] at large
      cases large
  · rw [if_neg (fun same => directory same.symm)] at middleTable
    simp only [middleTable]
    cases middle : tableAt machine.memory root [first, second] with
    | none => rfl
    | some pd =>
        simp only
        rw [step.kept_at valid (by simp) middle]
        intro same
        cases same
        exact here rfl

end Spelled

/-! ## Rewriting an entry -/

/-- The machine after a store to one entry. -/
def Machine.setEntry (machine : Machine) (table : Nat) (index : Fin 512) (entry : Entry) :
    Machine :=
  { machine with memory := writeEntry machine.memory table index entry }

section Rewrite

variable {machine : Machine} {root : Nat} {path : List (Fin 512)} {index : Fin 512}
  {table : Nat} {entry : Entry} (valid : WellFormed machine root)
  (short : path.length ≤ 3) (reached : tableAt machine.memory root path = some table)

include valid short reached

/-- Entries at other positions are kept. -/
theorem readEntry_setEntry_of_ne {query : List (Fin 512)} {other : Nat} {slot : Fin 512}
    (queryShort : query.length ≤ 3)
    (otherReached : tableAt machine.memory root query = some other)
    (elsewhere : (query, slot) ≠ (path, index)) :
    readEntry (machine.setEntry table index entry).memory other slot =
      readEntry machine.memory other slot := by
  apply readEntry_writeEntry_of_ne (valid.table_aligned short reached)
    (valid.table_aligned queryShort otherReached)
  intro same
  cases same
  exact elsewhere (by rw [valid.path_eq queryShort short otherReached reached])

/-- A store that keeps what the slot links keeps all positions. -/
theorem tableAt_setEntry
    (links : path.length < 3 →
      child (machine.setEntry table index entry).memory table index =
        child machine.memory table index)
    {query : List (Fin 512)} (queryShort : query.length ≤ 3) :
    tableAt (machine.setEntry table index entry).memory root query =
      tableAt machine.memory root query := by
  have agree : ∀ position node, position.length < 3 →
      descend (child machine.memory) root position = some node → ∀ slot,
      child (machine.setEntry table index entry).memory node slot =
        child machine.memory node slot := ?_
  · exact descend_congr agree query queryShort
  intro position node above here slot
  by_cases same : (position, slot) = (path, index)
  · cases same
    have sameNode : some node = some table := here.symm.trans reached
    cases sameNode
    exact links above
  · exact child_congr
      (readEntry_setEntry_of_ne valid short reached (by omega) here same)

end Rewrite

section Widen

variable {machine : Machine} {root : Nat} {path : List (Fin 512)} {index : Fin 512}
  {table : Nat} (valid : WellFormed machine root)
  (short : path.length ≤ 2) (reached : tableAt machine.memory root path = some table)
  (used : present (readEntry machine.memory table index) = true)
  (small : huge (readEntry machine.memory table index) = false)

/-- The machine after `widenUser`. -/
def Machine.widen (machine : Machine) (table : Nat) (index : Fin 512) : Machine :=
  machine.setEntry table index (readEntry machine.memory table index ||| 4#64)

theorem readEntry_widen_self :
    readEntry (machine.widen table index).memory table index =
      readEntry machine.memory table index ||| 4#64 :=
  readEntry_writeEntry_self

theorem child_widen :
    child (machine.widen table index).memory table index =
      child machine.memory table index := by
  simp only [child, readEntry_widen_self, present_or_user, huge_or_user,
    tableAddress_or_user]

include valid short reached

theorem tableAt_widen {query : List (Fin 512)} (queryShort : query.length ≤ 3) :
    tableAt (machine.widen table index).memory root query =
      tableAt machine.memory root query :=
  tableAt_setEntry valid (by omega) reached (fun _ => child_widen) queryShort

/-- Only the user bit of the entry changes. -/
theorem readEntry_widen {query : List (Fin 512)} {other : Nat} {slot : Fin 512}
    (queryShort : query.length ≤ 3)
    (otherReached : tableAt machine.memory root query = some other) :
    readEntry (machine.widen table index).memory other slot =
      if (query, slot) = (path, index) then readEntry machine.memory other slot ||| 4#64
      else readEntry machine.memory other slot := by
  split
  · next same =>
      cases same
      have sameTable : some other = some table := otherReached.symm.trans reached
      cases sameTable
      exact readEntry_widen_self
  · next elsewhere =>
      exact readEntry_setEntry_of_ne valid (by omega) reached queryShort otherReached
        elsewhere

include small

theorem WellFormed.widen : WellFormed (machine.widen table index) root where
  root_aligned := valid.root_aligned
  unshared := by
    intro first second node firstShort secondShort firstReached secondReached
    have oldFirst := (tableAt_widen valid short reached firstShort).symm.trans firstReached
    have oldSecond :=
      (tableAt_widen valid short reached secondShort).symm.trans secondReached
    exact valid.unshared first second node firstShort secondShort oldFirst oldSecond
  owned := by
    intro query other queryShort otherReached
    rw [tableAt_widen valid short reached queryShort] at otherReached
    exact valid.owned query other queryShort otherReached
  upper := by
    intro query other slot queryShort otherReached otherUsed
    rw [tableAt_widen valid short reached (by omega)] at otherReached
    rw [readEntry_widen valid short reached (by omega) otherReached] at otherUsed ⊢
    split at otherUsed
    · rw [present_or_user] at otherUsed
      have old := valid.upper query other slot queryShort otherReached otherUsed
      rw [if_pos ‹_›, writable_or_user]
      exact ⟨old.1, old.2.or_user⟩
    · rw [if_neg ‹_›]
      exact valid.upper query other slot queryShort otherReached otherUsed
  no_gigabyte := by
    intro query other slot queryShort otherReached otherUsed
    rw [tableAt_widen valid short reached (by omega)] at otherReached
    rw [readEntry_widen valid short reached (by omega) otherReached] at otherUsed ⊢
    split at otherUsed
    · rw [present_or_user] at otherUsed
      rw [if_pos ‹_›, huge_or_user]
      exact valid.no_gigabyte query other slot queryShort otherReached otherUsed
    · rw [if_neg ‹_›]
      exact valid.no_gigabyte query other slot queryShort otherReached otherUsed
  large_closed := by
    intro query other slot queryShort otherReached otherUsed large
    rw [tableAt_widen valid short reached (by omega)] at otherReached
    rw [readEntry_widen valid short reached (by omega) otherReached] at otherUsed large ⊢
    split at large
    · next same =>
        cases same
        have sameTable : some other = some table := otherReached.symm.trans reached
        cases sameTable
        rw [huge_or_user, small] at large
        cases large
    · next elsewhere =>
        rw [if_neg elsewhere] at otherUsed ⊢
        exact valid.large_closed query other slot queryShort otherReached otherUsed large
  user_open := by
    intro query other slot queryShort otherReached leaf access above upperSlot below
      upperTable split here
    rw [tableAt_widen valid short reached queryShort] at otherReached
    have aboveShort : above.length ≤ 3 := by
      have lengths := congrArg List.length split
      simp only [List.length_append, List.length_cons] at lengths
      omega
    rw [tableAt_widen valid short reached aboveShort] at here
    rw [readEntry_widen valid short reached queryShort otherReached] at leaf access
    rw [readEntry_widen valid short reached aboveShort here]
    have notLeaf : (query, slot) ≠ (path, index) := by
      -- the widened entry links a table, so it is no leaf
      intro same
      cases same
      have sameTable : some other = some table := otherReached.symm.trans reached
      cases sameTable
      rw [if_pos rfl] at leaf
      rcases leaf.2 with deep | large
      · omega
      · rw [huge_or_user, small] at large
        cases large
    rw [if_neg notLeaf] at leaf access
    have opened := valid.user_open query other slot queryShort otherReached leaf access
      above upperSlot below upperTable split here
    split
    · exact user_or_user _
    · exact opened

include used

theorem leafView_widen (first second third last : Fin 512) :
    leafView (machine.widen table index).memory root first second third last =
      leafView machine.memory root first second third last := by
  have deepTable : tableAt (machine.widen table index).memory root
      [first, second, third] = tableAt machine.memory root [first, second, third] :=
    tableAt_widen valid short reached (by simp)
  have middleTable : tableAt (machine.widen table index).memory root [first, second] =
      tableAt machine.memory root [first, second] :=
    tableAt_widen valid short reached (by simp)
  simp only [leafView, deepTable, middleTable]
  cases deep : tableAt machine.memory root [first, second, third] with
  | some pt =>
      simp only
      rw [readEntry_widen valid short reached (by simp) deep, if_neg]
      intro same
      cases same
      simp at short
  | none =>
  cases middle : tableAt machine.memory root [first, second] with
  | none => rfl
  | some pd =>
  simp only
  rw [readEntry_widen valid short reached (by simp) middle, if_neg]
  intro same
  cases same
  have sameTable : some pd = some table := middle.symm.trans reached
  cases sameTable
  have link := tableAt_snoc middle index
  rw [child_eq_some_iff.mpr ⟨used, small, rfl⟩] at link
  rw [show [first, second] ++ [index] = [first, second, index] by rfl, deep] at link
  cases link

end Widen

/-! ## Entering and removing a page -/

section Leaf

variable {machine : Machine} {root : Nat} {path : List (Fin 512)} {index : Fin 512}
  {table : Nat} {entry : Entry} (valid : WellFormed machine root)
  (deep : path.length = 3) (reached : tableAt machine.memory root path = some table)

include valid deep reached

theorem tableAt_setLeaf {query : List (Fin 512)} (queryShort : query.length ≤ 3) :
    tableAt (machine.setEntry table index entry).memory root query =
      tableAt machine.memory root query :=
  tableAt_setEntry valid (by omega) reached (fun above => by omega) queryShort

theorem readEntry_setLeaf {query : List (Fin 512)} {other : Nat} {slot : Fin 512}
    (queryShort : query.length ≤ 3)
    (otherReached : tableAt machine.memory root query = some other) :
    readEntry (machine.setEntry table index entry).memory other slot =
      if (query, slot) = (path, index) then entry
      else readEntry machine.memory other slot := by
  split
  · next same =>
      cases same
      have sameTable : some other = some table := otherReached.symm.trans reached
      cases sameTable
      exact readEntry_writeEntry_self
  · next elsewhere =>
      exact readEntry_setEntry_of_ne valid (by omega) reached queryShort otherReached
        elsewhere

/-- Entries above the page tables are kept. -/
theorem readEntry_setLeaf_of_upper {query : List (Fin 512)} {other : Nat}
    {slot : Fin 512} (queryShort : query.length ≤ 2)
    (otherReached : tableAt machine.memory root query = some other) :
    readEntry (machine.setEntry table index entry).memory other slot =
      readEntry machine.memory other slot := by
  rw [readEntry_setLeaf valid deep reached (by omega) otherReached, if_neg]
  intro same
  cases same
  omega

/-- A page may be entered with the user bit once all entries above have it. -/
theorem WellFormed.setLeaf
    (opened : present entry = true → user entry = true →
      ∀ above slot below upperTable, path = above ++ slot :: below →
        tableAt machine.memory root above = some upperTable →
        user (readEntry machine.memory upperTable slot) = true) :
    WellFormed (machine.setEntry table index entry) root where
  root_aligned := valid.root_aligned
  unshared := by
    intro first second node firstShort secondShort firstReached secondReached
    have oldFirst := (tableAt_setLeaf valid deep reached firstShort).symm.trans firstReached
    have oldSecond :=
      (tableAt_setLeaf valid deep reached secondShort).symm.trans secondReached
    exact valid.unshared first second node firstShort secondShort oldFirst oldSecond
  owned := by
    intro query other queryShort otherReached
    rw [tableAt_setLeaf valid deep reached queryShort] at otherReached
    exact valid.owned query other queryShort otherReached
  upper := by
    intro query other slot queryShort otherReached
    rw [tableAt_setLeaf valid deep reached (by omega)] at otherReached
    rw [readEntry_setLeaf_of_upper valid deep reached queryShort otherReached]
    exact valid.upper query other slot queryShort otherReached
  no_gigabyte := by
    intro query other slot queryShort otherReached
    rw [tableAt_setLeaf valid deep reached (by omega)] at otherReached
    rw [readEntry_setLeaf_of_upper valid deep reached (by omega) otherReached]
    exact valid.no_gigabyte query other slot queryShort otherReached
  large_closed := by
    intro query other slot queryShort otherReached
    rw [tableAt_setLeaf valid deep reached (by omega)] at otherReached
    rw [readEntry_setLeaf_of_upper valid deep reached queryShort otherReached]
    exact valid.large_closed query other slot queryShort otherReached
  user_open := by
    intro query other slot queryShort otherReached leaf access above upperSlot below
      upperTable split here
    have aboveShort : above.length ≤ 2 := by
      have lengths := congrArg List.length split
      simp only [List.length_append, List.length_cons] at lengths
      omega
    rw [tableAt_setLeaf valid deep reached queryShort] at otherReached
    rw [tableAt_setLeaf valid deep reached (by omega)] at here
    rw [readEntry_setLeaf valid deep reached queryShort otherReached] at leaf access
    rw [readEntry_setLeaf_of_upper valid deep reached aboveShort here]
    by_cases same : (query, slot) = (path, index)
    · rw [if_pos same] at leaf access
      cases same
      exact opened leaf.1 access above upperSlot below upperTable split here
    · rw [if_neg same] at leaf access
      exact valid.user_open query other slot queryShort otherReached leaf access above
        upperSlot below upperTable split here

/-- Storing the entry of a page changes the translation of that page only. -/
theorem leafView_setLeaf (first second third last : Fin 512) :
    leafView (machine.setEntry table index entry).memory root first second third last =
      if path = [first, second, third] ∧ index = last then pageView entry
      else leafView machine.memory root first second third last := by
  have deepTable : tableAt (machine.setEntry table index entry).memory root
      [first, second, third] = tableAt machine.memory root [first, second, third] :=
    tableAt_setLeaf valid deep reached (by simp)
  have middleTable : tableAt (machine.setEntry table index entry).memory root
      [first, second] = tableAt machine.memory root [first, second] :=
    tableAt_setLeaf valid deep reached (by simp)
  simp only [leafView, deepTable, middleTable]
  cases page : tableAt machine.memory root [first, second, third] with
  | some pt =>
      simp only
      rw [readEntry_setLeaf valid deep reached (by simp) page]
      simp only [Prod.mk.injEq, eq_comm]
      split <;> rfl
  | none =>
  have elsewhere : ¬ (path = [first, second, third] ∧ index = last) := by
    rintro ⟨rfl, -⟩
    rw [reached] at page
    cases page
  rw [if_neg elsewhere]
  cases middle : tableAt machine.memory root [first, second] with
  | none => rfl
  | some pd =>
      simp only
      rw [readEntry_setLeaf_of_upper valid deep reached (by simp) middle]

end Leaf

section Elsewhere

variable {machine machine' : Machine} {root : Nat} (valid : WellFormed machine root)
  (kept : ∀ path table, path.length ≤ 3 → tableAt machine.memory root path = some table →
    ByteMemory.AgreeOn machine'.memory machine.memory table (table + 4096))

include kept

theorem readEntry_elsewhere {path : List (Fin 512)} {table : Nat}
    (short : path.length ≤ 3) (reached : tableAt machine.memory root path = some table)
    (index : Fin 512) :
    readEntry machine'.memory table index = readEntry machine.memory table index :=
  readEntry_congr (kept path table short reached)

theorem tableAt_elsewhere {path : List (Fin 512)} (short : path.length ≤ 3) :
    tableAt machine'.memory root path = tableAt machine.memory root path := by
  have agree : ∀ position node, position.length < 3 →
      descend (child machine.memory) root position = some node → ∀ slot,
      child machine'.memory node slot = child machine.memory node slot :=
    fun position node above here slot =>
      child_congr (readEntry_elsewhere kept (by omega) here slot)
  exact descend_congr agree path short

/-- Stores outside the tables are seen by no translation. -/
theorem leafView_elsewhere (first second third last : Fin 512) :
    leafView machine'.memory root first second third last =
      leafView machine.memory root first second third last := by
  have deepTable : tableAt machine'.memory root [first, second, third] =
      tableAt machine.memory root [first, second, third] :=
    tableAt_elsewhere kept (by simp)
  have middleTable : tableAt machine'.memory root [first, second] =
      tableAt machine.memory root [first, second] :=
    tableAt_elsewhere kept (by simp)
  simp only [leafView, deepTable, middleTable]
  cases deep : tableAt machine.memory root [first, second, third] with
  | some pt =>
      simp only
      rw [readEntry_elsewhere kept (by simp) deep]
  | none =>
      cases middle : tableAt machine.memory root [first, second] with
      | none => rfl
      | some pd =>
          simp only
          rw [readEntry_elsewhere kept (by simp) middle]

include valid

/-- Stores outside the tables keep a tree well formed, as long as the allocator
does not get hold of its tables. -/
theorem WellFormed.elsewhere
    (owned : ∀ path table, path.length ≤ 3 →
      tableAt machine.memory root path = some table → ¬ machine'.pmm.Available table) :
    WellFormed machine' root where
  root_aligned := valid.root_aligned
  unshared := by
    intro first second node firstShort secondShort firstReached secondReached
    have oldFirst := (tableAt_elsewhere kept firstShort).symm.trans firstReached
    have oldSecond := (tableAt_elsewhere kept secondShort).symm.trans secondReached
    exact valid.unshared first second node firstShort secondShort oldFirst oldSecond
  owned := by
    intro path table short reached
    rw [tableAt_elsewhere kept short] at reached
    exact owned path table short reached
  upper := by
    intro path table index short reached
    rw [tableAt_elsewhere kept (by omega)] at reached
    rw [readEntry_elsewhere kept (by omega) reached]
    exact valid.upper path table index short reached
  no_gigabyte := by
    intro path table index short reached
    rw [tableAt_elsewhere kept (by omega)] at reached
    rw [readEntry_elsewhere kept (by omega) reached]
    exact valid.no_gigabyte path table index short reached
  large_closed := by
    intro path table index short reached
    rw [tableAt_elsewhere kept (by omega)] at reached
    rw [readEntry_elsewhere kept (by omega) reached]
    exact valid.large_closed path table index short reached
  user_open := by
    intro path table index short reached leaf access above slot below upperTable split here
    have aboveShort : above.length ≤ 3 := by
      have lengths := congrArg List.length split
      simp only [List.length_append, List.length_cons] at lengths
      omega
    rw [tableAt_elsewhere kept short] at reached
    rw [tableAt_elsewhere kept aboveShort] at here
    rw [readEntry_elsewhere kept short reached] at leaf access
    rw [readEntry_elsewhere kept aboveShort here]
    exact valid.user_open path table index short reached leaf access above slot below
      upperTable split here

end Elsewhere

/-- A page that belongs neither to the allocator nor to the tables of a tree. -/
def Foreign (machine : Machine) (root page : Nat) : Prop :=
  ¬ machine.pmm.Available page ∧
    ∀ path, path.length ≤ 3 → tableAt machine.memory root path ≠ some page

/-- An edit only touches the tables of the tree and pages of the allocator, and
only adds tables. -/
structure Grown (machine machine' : Machine) (root : Nat) : Prop where
  wellFormed : WellFormed machine' root
  reached : ∀ path table, path.length ≤ 3 →
    tableAt machine.memory root path = some table →
    tableAt machine'.memory root path = some table
  available : ∀ page, machine'.pmm.Available page → machine.pmm.Available page
  foreign : ∀ page, page % 4096 = 0 → Foreign machine root page →
    Foreign machine' root page ∧
      ByteMemory.AgreeOn machine'.memory machine.memory page (page + 4096)

namespace Grown

variable {first second third : Machine} {root : Nat}

theorem refl (valid : WellFormed first root) : Grown first first root where
  wellFormed := valid
  reached := fun _ _ _ here => here
  available := fun _ free => free
  foreign := fun _ _ outside => ⟨outside, ByteMemory.AgreeOn.refl _ _ _⟩

theorem trans (early : Grown first second root) (late : Grown second third root) :
    Grown first third root where
  wellFormed := late.wellFormed
  reached := fun path table short here =>
    late.reached path table short (early.reached path table short here)
  available := fun page free => early.available page (late.available page free)
  foreign := by
    intro page aligned outside
    obtain ⟨still, same⟩ := early.foreign page aligned outside
    obtain ⟨still', same'⟩ := late.foreign page aligned still
    exact ⟨still', same'.trans same⟩

end Grown

section Grows

variable {machine machine' : Machine} {root : Nat} {path : List (Fin 512)}
  {index : Fin 512} {table parent fresh : Nat} {entry link : Entry}

theorem Spelled.grown (valid : WellFormed machine root)
    (step : Spelled machine machine' root path index parent fresh link)
    (unlinked : child machine.memory parent index = none) :
    Grown machine machine' root where
  wellFormed := step.wellFormed valid
  reached := by
    intro query table short here
    rw [step.tableAt_eq valid query short, if_neg]
    · exact here
    · rintro rfl
      rw [tableAt_snoc step.reached, unlinked] at here
      cases here
  available := fun page free => ((step.taken.2 page).mp free).1
  foreign := by
    intro page aligned outside
    have apart : page ≠ fresh := by
      rintro rfl
      exact outside.1 step.taken.1
    have short := step.short
    refine ⟨⟨fun free => outside.1 ((step.taken.2 page).mp free).1, ?_⟩, ?_⟩
    · intro query queryShort here
      rcases step.position_cases valid queryShort here with ⟨-, same⟩ | ⟨-, old⟩
      · exact apart same
      · exact outside.2 query queryShort old
    · apply step.outside page aligned apart
      rintro rfl
      exact outside.2 path (by omega) step.reached

/-- Rewriting an entry without changing what is linked. -/
theorem grown_setEntry (short : path.length ≤ 3) (valid : WellFormed machine root)
    (reached : tableAt machine.memory root path = some table)
    (valid' : WellFormed (machine.setEntry table index entry) root)
    (same : ∀ query, query.length ≤ 3 →
      tableAt (machine.setEntry table index entry).memory root query =
        tableAt machine.memory root query) :
    Grown machine (machine.setEntry table index entry) root where
  wellFormed := valid'
  reached := fun query table queryShort here => (same query queryShort).trans here
  available := fun _ free => free
  foreign := by
    intro page aligned outside
    refine ⟨⟨outside.1, fun query queryShort here =>
      outside.2 query queryShort ((same query queryShort).symm.trans here)⟩, ?_⟩
    apply agreeOn_writeEntry
    have tableAligned := valid.table_aligned short reached
    have apart : page ≠ table := by
      rintro rfl
      exact outside.2 path short reached
    omega

theorem grown_widen (valid : WellFormed machine root) (short : path.length ≤ 2)
    (reached : tableAt machine.memory root path = some table)
    (small : huge (readEntry machine.memory table index) = false) :
    Grown machine (machine.widen table index) root :=
  grown_setEntry (by omega) valid reached (valid.widen short reached small)
    fun _ queryShort => tableAt_widen valid short reached queryShort

end Grows

end Charis.Memory
