import Charis.Memory.AddressSpaceEdits

/-!
# Mapping and unmapping pages

`vmm_map_page_pml4` and `vmm_unmap_page_pml4` as edits of a well-formed tree.
Creating tables and splitting 2 MiB leaves is silent; only the final store of a
page-table entry is seen by a translation.
-/

namespace Charis.Memory

open Charis.Lib
open Charis.Lib.RadixTree
open Entry

/-- An edit that no translation can tell. -/
structure Silent (machine machine' : Machine) (root : Nat) : Prop
    extends Grown machine machine' root where
  view_eq : ∀ first second third last,
    leafView machine'.memory root first second third last =
      leafView machine.memory root first second third last

namespace Silent

variable {first second third : Machine} {root : Nat}

theorem refl (valid : WellFormed first root) : Silent first first root where
  toGrown := Grown.refl valid
  view_eq := fun _ _ _ _ => rfl

theorem trans (early : Silent first second root) (late : Silent second third root) :
    Silent first third root where
  toGrown := early.toGrown.trans late.toGrown
  view_eq := fun a b c d => (late.view_eq a b c d).trans (early.view_eq a b c d)

end Silent

section Tables

variable {machine : Machine} {root : Nat} {path : List (Fin 512)} {index : Fin 512}
  {parent : Nat} (valid : WellFormed machine root) (short : path.length ≤ 2)
  (reached : tableAt machine.memory root path = some parent)

include valid short reached

/-- A new zeroed table spells out an empty slot. -/
theorem spelled_create {phys : Nat} {pmm : Pmm}
    (taken : Pmm.Takes machine.pmm pmm phys)
    (absent : present (readEntry machine.memory parent index) = false) :
    Spelled machine
      { machine with
        memory := writeEntry (machine.memory.fill phys pageSize 0) parent index
          (tableEntry phys 0), pmm }
      root path index parent phys (tableEntry phys 0) := by
  have aligned := taken.1.aligned
  have small : phys < 2 ^ 52 := taken.1.lt.trans (by norm_num)
  have parentAligned := valid.table_aligned (by omega) reached
  have apart : parent ≠ phys := by
    rintro rfl
    exact valid.owned path parent (by omega) reached taken.1
  exact {
    short := short
    reached := reached
    taken := taken
    linked := readEntry_writeEntry_self
    content := by
      intro slot
      rw [entryBelow, absent, if_neg Bool.false_ne_true,
        readEntry_writeEntry_of_ne parentAligned aligned (by
          intro same
          exact apart (congrArg Prod.fst same).symm)]
      exact readEntry_fill_zero
    kept := by
      intro table slot tableAligned notFresh elsewhere
      rw [readEntry_writeEntry_of_ne parentAligned tableAligned elsewhere]
      exact readEntry_congr (ByteMemory.agreeOn_fill (by simp only [pageSize]; omega))
    outside := by
      intro page pageAligned notFresh notParent
      exact (agreeOn_writeEntry (by omega)).trans
        (ByteMemory.agreeOn_fill (by simp only [pageSize]; omega))
    link_present := present_tableEntry aligned small
    link_small := huge_tableEntry aligned small
    link_writable := writable_tableEntry aligned small
    link_high := highClear_tableEntry aligned small
    link_frame := frame_tableEntry aligned small
    link_user := by
      rw [user_tableEntry aligned small, absent]
      rfl }

theorem spelled_split {phys : Nat} {pmm : Pmm}
    (taken : Pmm.Takes machine.pmm pmm phys)
    (used : present (readEntry machine.memory parent index) = true)
    (large : huge (readEntry machine.memory parent index) = true) :
    Spelled machine
      { machine with
        memory := writeEntry
          (fillTable machine.memory phys
            (splitEntry (readEntry machine.memory parent index)) (List.finRange 512))
          parent index (splitLink phys (readEntry machine.memory parent index)), pmm }
      root path index parent phys
      (splitLink phys (readEntry machine.memory parent index)) := by
  have aligned := taken.1.aligned
  have small : phys < 2 ^ 52 := taken.1.lt.trans (by norm_num)
  have parentAligned := valid.table_aligned (by omega) reached
  have apart : parent ≠ phys := by
    rintro rfl
    exact valid.owned path parent (by omega) reached taken.1
  obtain ⟨write, clear⟩ := valid.upper path parent index short reached used
  exact {
    short := short
    reached := reached
    taken := taken
    linked := readEntry_writeEntry_self
    content := by
      intro slot
      rw [entryBelow, if_pos used, if_pos large,
        readEntry_writeEntry_of_ne parentAligned aligned (by
          intro same
          exact apart (congrArg Prod.fst same).symm),
        readEntry_fillTable aligned, if_pos (List.mem_finRange slot)]
    kept := by
      intro table slot tableAligned notFresh elsewhere
      rw [readEntry_writeEntry_of_ne parentAligned tableAligned elsewhere]
      exact readEntry_congr (agreeOn_fillTable (by omega))
    outside := by
      intro page pageAligned notFresh notParent
      exact (agreeOn_writeEntry (by omega)).trans (agreeOn_fillTable (by omega))
    link_present :=
      (getLsbD_splitLink aligned small (by decide) (by decide)).trans used
    link_small := huge_splitLink aligned small
    link_writable :=
      (getLsbD_splitLink aligned small (by decide) (by decide)).trans write
    link_high := highClear_splitLink aligned small clear
    link_frame := frame_splitLink aligned small
    link_user := by
      rw [used, Bool.true_and]
      exact getLsbD_splitLink aligned small (by decide) (by decide) }

omit short reached in
theorem Spelled.silent {machine' : Machine} {fresh : Nat} {link : Entry}
    (step : Spelled machine machine' root path index parent fresh link)
    (unlinked : child machine.memory parent index = none) :
    Silent machine machine' root where
  toGrown := step.grown valid unlinked
  view_eq := step.leafView_eq valid

theorem getOrCreateTable_silent :
    Silent machine (getOrCreateTable machine parent index 0).2 root ∧
      ((getOrCreateTable machine parent index 0).1 = true →
        present (readEntry (getOrCreateTable machine parent index 0).2.memory parent index)
          = true) := by
  simp only [getOrCreateTable]
  split
  · next used => exact ⟨Silent.refl valid, fun _ => used⟩
  next absent =>
  simp only [Bool.not_eq_true] at absent
  rcases machine.pmm.allocPage_cases with failed | taken
  · simp only [failed, ↓reduceIte]
    exact ⟨Silent.refl valid, fun impossible => by cases impossible⟩
  · have step := spelled_create valid short reached taken absent
    rw [if_neg taken.1.pos.ne']
    refine ⟨step.silent valid (child_eq_none_of_not_present absent),
      fun _ => ?_⟩
    simp only [step.linked, step.link_present]

/-- Splitting a large leaf is silent and leaves a link in its slot. -/
theorem splitHugePage_silent
    (used : present (readEntry machine.memory parent index) = true)
    (large : huge (readEntry machine.memory parent index) = true) :
    Silent machine
        (splitHugePage machine parent index (readEntry machine.memory parent index)).2
        root ∧
      ∀ pde,
        (splitHugePage machine parent index (readEntry machine.memory parent index)).1 =
          some pde →
        readEntry
            (splitHugePage machine parent index
              (readEntry machine.memory parent index)).2.memory parent index = pde ∧
          present pde = true ∧ huge pde = false := by
  simp only [splitHugePage]
  rcases machine.pmm.allocPage_cases with failed | taken
  · simp only [failed, ↓reduceIte]
    exact ⟨Silent.refl valid, fun pde impossible => by cases impossible⟩
  · have step := spelled_split valid short reached taken used large
    rw [if_neg taken.1.pos.ne']
    refine ⟨step.silent valid (child_eq_none_of_huge large), fun pde same => ?_⟩
    cases same
    exact ⟨step.linked, step.link_present, step.link_small⟩

theorem widen_silent (used : present (readEntry machine.memory parent index) = true)
    (small : huge (readEntry machine.memory parent index) = false) :
    Silent machine (machine.widen parent index) root where
  toGrown := grown_widen valid short reached small
  view_eq := leafView_widen valid short reached used small

/-- A link that was open stays open. -/
theorem user_widen {query : List (Fin 512)} {other : Nat} {slot : Fin 512}
    (queryShort : query.length ≤ 3)
    (otherReached : tableAt machine.memory root query = some other)
    (access : user (readEntry machine.memory other slot) = true) :
    user (readEntry (machine.widen parent index).memory other slot) = true := by
  rw [readEntry_widen valid short reached queryShort otherReached]
  split
  · exact user_or_user _
  · exact access

end Tables

/-- All links on the way to a page table have the user bit. -/
def PathOpen (memory : ByteMemory) (root : Nat) (path : List (Fin 512)) : Prop :=
  ∀ above slot below upperTable, path = above ++ slot :: below →
    tableAt memory root above = some upperTable →
    user (readEntry memory upperTable slot) = true

/-- The two facts about a slot on the way to a page table. -/
theorem link_of_reached {memory : ByteMemory} {root table next : Nat}
    {path : List (Fin 512)} {index : Fin 512}
    (here : tableAt memory root path = some table)
    (below : tableAt memory root (path ++ [index]) = some next) :
    present (readEntry memory table index) = true ∧
      huge (readEntry memory table index) = false := by
  rw [tableAt_snoc here] at below
  obtain ⟨used, small, -⟩ := child_eq_some_iff.mp below
  exact ⟨used, small⟩

/-- The three user-bit stores of `vmm_map_page_pml4` open the path. -/
theorem widen_path {machine : Machine} {root pdpt pd pt : Nat} {first second third : Fin 512}
    (valid : WellFormed machine root)
    (pdptReached : tableAt machine.memory root [first] = some pdpt)
    (pdReached : tableAt machine.memory root [first, second] = some pd)
    (ptReached : tableAt machine.memory root [first, second, third] = some pt) :
    Silent machine (((machine.widen root first).widen pdpt second).widen pd third) root ∧
      PathOpen (((machine.widen root first).widen pdpt second).widen pd third).memory root
        [first, second, third] := by
  have rootReached : tableAt machine.memory root [] = some root := rfl
  have rootShort : ([] : List (Fin 512)).length ≤ 3 := Nat.zero_le 3
  -- first store: the PML4 entry
  obtain ⟨used1, small1⟩ := link_of_reached rootReached pdptReached
  have step1 := widen_silent valid (by simp) rootReached used1 small1
  have open1 : user (readEntry (machine.widen root first).memory root first) = true := by
    rw [readEntry_widen_self]
    exact user_or_user _
  set second1 := machine.widen root first
  have pdpt1 := step1.reached _ _ (by simp) pdptReached
  have pd1 := step1.reached _ _ (by simp) pdReached
  have pt1 := step1.reached _ _ (by simp) ptReached
  -- second store: the PDPT entry
  obtain ⟨used2, small2⟩ := @link_of_reached _ _ _ _ [first] second pdpt1 pd1
  have step2 := widen_silent step1.wellFormed (by simp) pdpt1 used2 small2
  have keep2 : user (readEntry (second1.widen pdpt second).memory root first) = true :=
    user_widen step1.wellFormed (by simp) pdpt1 rootShort rfl open1
  have open2 : user (readEntry (second1.widen pdpt second).memory pdpt second) = true := by
    rw [readEntry_widen_self]
    exact user_or_user _
  set second2 := second1.widen pdpt second
  have pdpt2 := step2.reached _ _ (by simp) pdpt1
  have pd2 := step2.reached _ _ (by simp) pd1
  have pt2 := step2.reached _ _ (by simp) pt1
  -- third store: the page-directory entry
  obtain ⟨used3, small3⟩ := @link_of_reached _ _ _ _ [first, second] third pd2 pt2
  have step3 := widen_silent step2.wellFormed (by simp) pd2 used3 small3
  have keep3 : user (readEntry (second2.widen pd third).memory root first) = true :=
    user_widen step2.wellFormed (by simp) pd2 rootShort rfl keep2
  have keep3' : user (readEntry (second2.widen pd third).memory pdpt second) = true :=
    user_widen step2.wellFormed (by simp) pd2 (by simp) pdpt2 open2
  have open3 : user (readEntry (second2.widen pd third).memory pd third) = true := by
    rw [readEntry_widen_self]
    exact user_or_user _
  have pdpt3 := step3.reached _ _ (by simp) pdpt2
  have pd3 := step3.reached _ _ (by simp) pd2
  refine ⟨(step1.trans step2).trans step3, ?_⟩
  intro above slot below upperTable split here
  match above, split with
  | [], split =>
      cases split
      cases here
      exact keep3
  | [_], split =>
      cases split
      rw [pdpt3] at here
      cases here
      exact keep3'
  | [_, _], split =>
      cases split
      rw [pd3] at here
      cases here
      exact open3
  | _ :: _ :: _ :: rest, split =>
      have lengths := congrArg List.length split
      simp at lengths

/-! ## Changing one page -/

/-- An edit that changes the translation of one page. -/
structure Replaces (machine machine' : Machine) (root virt : Nat)
    (result : Option Translation) : Prop
    extends Grown machine machine' root where
  view_eq : ∀ first second third last,
    leafView machine'.memory root first second third last =
      if tablePath virt = [first, second, third] ∧ ptIndex virt = last then result
      else leafView machine.memory root first second third last

theorem Silent.replaces {first second third : Machine} {root virt : Nat}
    {result : Option Translation} (early : Silent first second root)
    (late : Replaces second third root virt result) :
    Replaces first third root virt result where
  toGrown := early.toGrown.trans late.toGrown
  view_eq := fun a b c d => by rw [late.view_eq a b c d, early.view_eq a b c d]

/-- Storing a page-table entry changes the translation of its page. -/
theorem setLeaf_replaces {machine : Machine} {root virt pt : Nat} {entry : Entry}
    (valid : WellFormed machine root)
    (reached : tableAt machine.memory root (tablePath virt) = some pt)
    (opened : present entry = true → user entry = true →
      PathOpen machine.memory root (tablePath virt)) :
    Replaces machine (machine.setEntry pt (ptIndex virt) entry) root virt
      (pageView entry) where
  toGrown := grown_setEntry (length_tablePath virt).le valid reached
    (valid.setLeaf rfl reached opened)
    fun _ short => tableAt_setLeaf valid rfl reached short
  view_eq := leafView_setLeaf valid rfl reached

/-- The translation that a call of `vmm_map_page_pml4` asks for. -/
def requested (phys : Nat) (flags : Entry) : Translation where
  frame := phys / pageSize * pageSize
  writable := writable flags
  user := user flags
  nx := nx flags

theorem pageView_leafEntry {phys : Nat} {flags : Entry} (small : phys < 2 ^ 52) :
    pageView (leafEntry phys flags) = some (requested phys flags) := by
  simp only [pageView, present_leafEntry, ↓reduceIte, combine, requested, frame_leafEntry small,
    List.all_cons, List.all_nil, List.any_cons, List.any_nil, Bool.and_true, Bool.or_false,
    writable, user, nx, pageSize]
  rw [getLsbD_leafEntry small (by decide), getLsbD_leafEntry small (by decide),
    getLsbD_leafEntry small (by decide)]
  simp

/-- The end of a mapping changes exactly the page that is mapped. -/
theorem mapLeaf_replaces {machine : Machine} {root pdpt pd pt virt phys : Nat}
    {flags : Entry} (valid : WellFormed machine root)
    (pdptReached : tableAt machine.memory root [pml4Index virt] = some pdpt)
    (pdReached : tableAt machine.memory root [pml4Index virt, pdptIndex virt] = some pd)
    (ptReached : tableAt machine.memory root (tablePath virt) = some pt) :
    Replaces machine (mapLeaf machine root pdpt pd pt virt phys flags) root virt
      (pageView (leafEntry phys flags)) := by
  cases access : user flags with
  | false =>
      have same : mapLeaf machine root pdpt pd pt virt phys flags =
          machine.setEntry pt (ptIndex virt) (leafEntry phys flags) := by
        simp [mapLeaf, access, Machine.setEntry]
      rw [same]
      apply setLeaf_replaces valid ptReached
      intro _ wanted
      rw [user_leafEntry, access] at wanted
      cases wanted
  | true =>
  obtain ⟨silent, opened⟩ := widen_path valid pdptReached pdReached ptReached
  have same : mapLeaf machine root pdpt pd pt virt phys flags =
      (((machine.widen root (pml4Index virt)).widen pdpt (pdptIndex virt)).widen pd
        (pdIndex virt)).setEntry pt (ptIndex virt) (leafEntry phys flags) := by
    simp only [mapLeaf, access, ↓reduceIte]
    rfl
  rw [same]
  exact silent.replaces (setLeaf_replaces silent.wellFormed
    (silent.reached _ _ (length_tablePath virt).le ptReached) fun _ _ => opened)

theorem mapPagePml4_spec {machine : Machine} {root : Nat} (virt phys : Nat)
    (flags : Entry) (valid : WellFormed machine root) :
    ((mapPagePml4 machine root virt phys flags).1 = false ∧
        Silent machine (mapPagePml4 machine root virt phys flags).2 root) ∨
      ((mapPagePml4 machine root virt phys flags).1 = true ∧
        Replaces machine (mapPagePml4 machine root virt phys flags).2 root virt
          (pageView (leafEntry phys flags))) := by
  unfold mapPagePml4
  split
  · exact .inl ⟨rfl, Silent.refl valid⟩
  have rootReached : tableAt machine.memory root [] = some root := rfl
  obtain ⟨step1, used1⟩ :=
    @getOrCreateTable_silent machine root [] (pml4Index virt) root valid (by simp) rootReached
  rcases create1 : getOrCreateTable machine root (pml4Index virt) 0 with ⟨ok1, machine1⟩
  rw [create1] at step1 used1
  cases ok1 with
  | false => exact .inl ⟨rfl, step1⟩
  | true =>
  have valid1 := step1.wellFormed
  have here1 : tableAt machine1.memory root [] = some root := rfl
  have small1 := valid1.no_gigabyte [] root (pml4Index virt) (by simp) here1 (used1 rfl)
  have pdpt1 := (tableAt_snoc here1 (pml4Index virt)).trans
    (child_eq_some_iff.mpr ⟨used1 rfl, small1, rfl⟩)
  simp only [List.nil_append] at pdpt1
  dsimp only
  set pdpt := tableAddress (readEntry machine1.memory root (pml4Index virt))
  obtain ⟨step2, used2⟩ := @getOrCreateTable_silent machine1 root [pml4Index virt]
    (pdptIndex virt) pdpt valid1 (by simp) pdpt1
  rcases create2 : getOrCreateTable machine1 pdpt (pdptIndex virt) 0 with ⟨ok2, machine2⟩
  rw [create2] at step2 used2
  cases ok2 with
  | false => exact .inl ⟨rfl, step1.trans step2⟩
  | true =>
  have valid2 := step2.wellFormed
  have pdpt2 := step2.reached _ _ (by simp) pdpt1
  have small2 :=
    valid2.no_gigabyte [pml4Index virt] pdpt (pdptIndex virt) (by simp) pdpt2 (used2 rfl)
  have pd2 := (tableAt_snoc pdpt2 (pdptIndex virt)).trans
    (child_eq_some_iff.mpr ⟨used2 rfl, small2, rfl⟩)
  simp only [List.cons_append, List.nil_append] at pd2
  dsimp only
  set pd := tableAddress (readEntry machine2.memory pdpt (pdptIndex virt))
  obtain ⟨step3, used3⟩ := @getOrCreateTable_silent machine2 root
    [pml4Index virt, pdptIndex virt] (pdIndex virt) pd valid2 (by simp) pd2
  rcases create3 : getOrCreateTable machine2 pd (pdIndex virt) 0 with ⟨ok3, machine3⟩
  rw [create3] at step3 used3
  cases ok3 with
  | false => exact .inl ⟨rfl, (step1.trans step2).trans step3⟩
  | true =>
  have before := (step1.trans step2).trans step3
  have valid3 := step3.wellFormed
  have pdpt3 := step3.reached _ _ (by simp) pdpt2
  have pd3 := step3.reached _ _ (by simp) pd2
  have used := used3 rfl
  dsimp only at used ⊢
  split
  · next large =>
      obtain ⟨step4, linked⟩ := @splitHugePage_silent machine3 root
        [pml4Index virt, pdptIndex virt] (pdIndex virt) pd valid3 (by simp) pd3 used large
      rcases divided : splitHugePage machine3 pd (pdIndex virt)
        (readEntry machine3.memory pd (pdIndex virt)) with ⟨result, machine4⟩
      rw [divided] at step4 linked
      cases result with
      | none => exact .inl ⟨rfl, before.trans step4⟩
      | some pde =>
      obtain ⟨stored, used4, small4⟩ := linked pde rfl
      have pdpt4 := step4.reached _ _ (by simp) pdpt3
      have pd4 := step4.reached _ _ (by simp) pd3
      have pt4 := (tableAt_snoc pd4 (pdIndex virt)).trans (child_eq_some_iff.mpr
        ⟨by rw [stored]; exact used4, by rw [stored]; exact small4, by rw [stored]⟩)
      exact .inr ⟨rfl, (before.trans step4).replaces
        (mapLeaf_replaces step4.wellFormed pdpt4 pd4 pt4)⟩
  · next small3 =>
      have pt3 := (tableAt_snoc pd3 (pdIndex virt)).trans
        (child_eq_some_iff.mpr ⟨used, by simpa using small3, rfl⟩)
      exact .inr ⟨rfl, before.replaces (mapLeaf_replaces valid3 pdpt3 pd3 pt3)⟩

/-- `vmm_unmap_page_pml4` either finds no 4 KiB page, which then is no user page,
or removes the page and returns its frame. -/
theorem unmapPagePml4_spec {machine : Machine} {root : Nat} (virt : Nat)
    (valid : WellFormed machine root) (nonzero : root ≠ 0) :
    (unmapPagePml4 machine root virt = (0, machine) ∧
        ∀ translation, view machine.memory root virt = some translation →
          translation.user = false) ∨
      ∃ translation, view machine.memory root virt = some translation ∧
        (unmapPagePml4 machine root virt).1 = translation.frame ∧
        Replaces machine (unmapPagePml4 machine root virt).2 root virt none := by
  have rootReached : tableAt machine.memory root [] = some root := rfl
  have unmapped (gone : view machine.memory root virt = none) :
      ∀ translation, view machine.memory root virt = some translation →
        translation.user = false := by
    intro translation here
    rw [gone] at here
    cases here
  unfold unmapPagePml4
  rw [if_neg nonzero]
  dsimp only
  cases used1 : present (readEntry machine.memory root (pml4Index virt)) with
  | false =>
      exact .inl ⟨rfl, unmapped (view_of_no_pdpt (child_eq_none_of_not_present used1))⟩
  | true =>
  have small1 := valid.no_gigabyte [] root (pml4Index virt) (by simp) rootReached used1
  have pdptReached := (tableAt_snoc rootReached (pml4Index virt)).trans
    (child_eq_some_iff.mpr ⟨used1, small1, rfl⟩)
  simp only [List.nil_append] at pdptReached
  set pdpt := tableAddress (readEntry machine.memory root (pml4Index virt))
  have below := tableAt_snoc pdptReached (pdptIndex virt)
  simp only [List.cons_append, List.nil_append] at below
  cases used2 : present (readEntry machine.memory pdpt (pdptIndex virt)) with
  | false =>
      rw [child_eq_none_of_not_present used2] at below
      exact .inl ⟨by simp, unmapped (view_of_no_directory below)⟩
  | true =>
  have small2 := valid.no_gigabyte [pml4Index virt] pdpt (pdptIndex virt) (by simp)
    pdptReached used2
  have pdReached := below.trans (child_eq_some_iff.mpr ⟨used2, small2, rfl⟩)
  simp only [small2, Bool.not_true, Bool.or_self, Bool.false_eq_true, ↓reduceIte]
  set pd := tableAddress (readEntry machine.memory pdpt (pdptIndex virt))
  cases used3 : present (readEntry machine.memory pd (pdIndex virt)) with
  | false =>
      refine .inl ⟨by simp, unmapped ?_⟩
      rw [view_of_directory pdReached (child_eq_none_of_not_present used3), hugeView,
        used3, if_neg Bool.false_ne_true]
  | true =>
  cases large : huge (readEntry machine.memory pd (pdIndex virt)) with
  | true =>
      -- a 2 MiB leaf is left alone
      refine .inl ⟨by simp, ?_⟩
      rw [view_of_directory pdReached (child_eq_none_of_huge large), hugeView, used3,
        if_pos rfl]
      intro translation here
      cases here
      have closed := valid.large_closed _ pd (pdIndex virt) (by simp) pdReached used3 large
      simp [combine, closed]
  | false =>
  have ptReached := (tableAt_snoc pdReached (pdIndex virt)).trans
    (child_eq_some_iff.mpr ⟨used3, large, rfl⟩)
  simp only [Bool.not_true, Bool.or_self, Bool.false_eq_true, ↓reduceIte]
  set pt := tableAddress (readEntry machine.memory pd (pdIndex virt))
  have viewEq : view machine.memory root virt =
      pageView (readEntry machine.memory pt (ptIndex virt)) := view_of_page ptReached
  cases used4 : present (readEntry machine.memory pt (ptIndex virt)) with
  | false =>
      refine .inl ⟨by simp, unmapped ?_⟩
      rw [viewEq, pageView, used4, if_neg Bool.false_ne_true]
  | true =>
      rw [pageView, used4, if_pos rfl] at viewEq
      refine .inr ⟨_, viewEq, by simp [combine], ?_⟩
      simp only [Bool.not_true, Bool.false_eq_true, ↓reduceIte]
      exact setLeaf_replaces valid ptReached fun impossible => by cases impossible

section Plenty

variable {machine : Machine} {count : Nat}

theorem getOrCreateTable_succeeds (plenty : machine.pmm.Plenty (count + 1)) (parent : Nat)
    (index : Fin 512) (flags : Entry) :
    ∃ machine', getOrCreateTable machine parent index flags = (true, machine') ∧
      machine'.pmm.Plenty count := by
  obtain ⟨taken, rest⟩ := plenty.allocPage
  simp only [getOrCreateTable]
  split
  · exact ⟨machine, rfl, plenty.mono (Nat.le_succ count)⟩
  · rw [if_neg taken.1.pos.ne']
    exact ⟨_, rfl, rest⟩

theorem splitHugePage_succeeds (plenty : machine.pmm.Plenty (count + 1)) (pd : Nat)
    (index : Fin 512) (pde : Entry) :
    ∃ link machine', splitHugePage machine pd index pde = (some link, machine') ∧
      machine'.pmm.Plenty count := by
  obtain ⟨taken, rest⟩ := plenty.allocPage
  simp only [splitHugePage]
  rw [if_neg taken.1.pos.ne']
  exact ⟨_, _, rfl, rest⟩

/-- Four pages are enough to map a page: three tables and one to split a leaf. -/
theorem mapPagePml4_succeeds {root : Nat} (nonzero : root ≠ 0)
    (plenty : machine.pmm.Plenty (count + 4)) (virt phys : Nat) (flags : Entry) :
    ∃ machine', mapPagePml4 machine root virt phys flags = (true, machine') ∧
      machine'.pmm.Plenty count := by
  obtain ⟨first, created1, plenty1⟩ :=
    getOrCreateTable_succeeds plenty root (pml4Index virt) 0
  obtain ⟨second, created2, plenty2⟩ := getOrCreateTable_succeeds plenty1
    (tableAddress (readEntry first.memory root (pml4Index virt))) (pdptIndex virt) 0
  set pdpt := tableAddress (readEntry first.memory root (pml4Index virt))
  obtain ⟨third, created3, plenty3⟩ := getOrCreateTable_succeeds plenty2
    (tableAddress (readEntry second.memory pdpt (pdptIndex virt))) (pdIndex virt) 0
  set pd := tableAddress (readEntry second.memory pdpt (pdptIndex virt))
  obtain ⟨link, fourth, split, plenty4⟩ := splitHugePage_succeeds plenty3 pd (pdIndex virt)
    (readEntry third.memory pd (pdIndex virt))
  simp only [mapPagePml4, nonzero, ↓reduceIte, created1, created2, created3, pdpt, pd] at *
  split
  · rw [split]
    exact ⟨_, rfl, plenty4⟩
  · exact ⟨_, rfl, plenty3.mono (Nat.le_succ count)⟩

end Plenty

end Charis.Memory
