import Charis.Lib.Chain

/-!
# Lists of nodes in memory

Nodes are allocated and freed, and each carries a value and a link.  What uses a node that is not
allocated fails, and so does a walk of more steps than there are nodes.  A list is sorted by
linking its nodes anew, one after the other, into a list that is sorted already.
-/

namespace Charis.Lib

section Insertion

variable {α ι : Type} [LinearOrder ι] (key : α → ι)

/-- Insert an element behind those whose key is not larger. -/
def insertStable (a : α) : List α → List α
  | [] => [a]
  | b :: bs => if key a < key b then a :: b :: bs else b :: insertStable a bs

/-- Insert elements one after the other. -/
def sortStable (as sorted : List α) : List α :=
  as.foldl (fun sorted a => insertStable key a sorted) sorted

variable {key}

theorem insertStable_perm (a : α) (bs : List α) : (insertStable key a bs).Perm (a :: bs) := by
  induction bs with
  | nil => exact .refl _
  | cons b bs ih =>
      rw [insertStable]
      split
      · exact .refl _
      · exact (ih.cons b).trans (.swap a b bs)

theorem insertStable_sorted (a : α) {bs : List α}
    (sorted : bs.Pairwise fun a b => key a ≤ key b) :
    (insertStable key a bs).Pairwise fun a b => key a ≤ key b := by
  induction bs with
  | nil => exact List.pairwise_singleton _ _
  | cons b bs ih =>
  obtain ⟨first, rest⟩ := List.pairwise_cons.mp sorted
  rw [insertStable]
  split
  next less =>
    apply List.pairwise_cons.mpr
    constructor
    · intro c mem
      cases mem with
      | head => exact less.le
      | tail _ mem => exact less.le.trans (first c mem)
    · exact sorted
  next notLess =>
    apply List.pairwise_cons.mpr
    constructor
    · intro c mem
      cases List.mem_cons.mp ((insertStable_perm a bs).mem_iff.mp mem) with
      | inl same => exact same ▸ not_lt.mp notLess
      | inr mem => exact first c mem
    · exact ih rest

theorem sortStable_perm (as sorted : List α) :
    (sortStable key as sorted).Perm (as ++ sorted) := by
  induction as generalizing sorted with
  | nil => exact .refl _
  | cons a as ih =>
      have inserted : (as ++ insertStable key a sorted).Perm (as ++ a :: sorted) :=
        (insertStable_perm a sorted).append_left as
      exact (ih _).trans (inserted.trans List.perm_middle)

theorem sortStable_nil_perm (as : List α) : (sortStable key as []).Perm as := by
  have perm : (sortStable key as []).Perm (as ++ []) := sortStable_perm as []
  rwa [List.append_nil] at perm

theorem sortStable_sorted (as : List α) {sorted : List α}
    (initially : sorted.Pairwise fun a b => key a ≤ key b) :
    (sortStable key as sorted).Pairwise fun a b => key a ≤ key b := by
  induction as generalizing sorted with
  | nil => exact initially
  | cons a as ih => exact ih (insertStable_sorted a initially)

end Insertion

/-- A node in memory. -/
structure Node (α : Type) where
  value : α
  next : Option Nat
  deriving DecidableEq

/-- The nodes in memory and the addresses of those that are allocated. -/
structure Arena (α : Type) where
  cells : Nat → Node α
  allocated : List Nat

namespace Arena

variable {α : Type}

def empty [Inhabited α] : Arena α := ⟨fun _ => ⟨default, none⟩, []⟩

def next (arena : Arena α) (p : Nat) : Option Nat := (arena.cells p).next

def value (arena : Arena α) (p : Nat) : α := (arena.cells p).value

def load (arena : Arena α) (p : Nat) : Option (Node α) :=
  if p ∈ arena.allocated then some (arena.cells p) else none

def store (arena : Arena α) (p : Nat) (node : Node α) : Option (Arena α) :=
  if p ∈ arena.allocated then some { arena with cells := Function.update arena.cells p node }
  else none

/-- Change the value of a node. -/
def modify (arena : Arena α) (p : Nat) (f : α → α) : Option (Arena α) := do
  let node ← arena.load p
  arena.store p { node with value := f node.value }

/-- Change the link of a node. -/
def setNext (arena : Arena α) (p : Nat) (next : Option Nat) : Option (Arena α) := do
  let node ← arena.load p
  arena.store p { node with next }

/-- Allocate a node. -/
def alloc (arena : Arena α) (p : Nat) (node : Node α) : Arena α where
  cells := Function.update arena.cells p node
  allocated := p :: arena.allocated

def free (arena : Arena α) (p : Nat) : Arena α :=
  { arena with allocated := arena.allocated.erase p }

/-- Change the values of all nodes of a list. -/
def forEach (f : Nat → α → α) : (fuel : Nat) → Arena α → (head : Option Nat) → Option (Arena α)
  | _, arena, none => some arena
  | 0, _, some _ => none
  | fuel + 1, arena, some p => do
      let node ← arena.load p
      let arena ← arena.store p { node with value := f p node.value }
      forEach f fuel arena node.next

/-- The first node of a list that meets a condition. -/
def find (condition : Nat → Node α → Bool) (arena : Arena α) :
    (fuel : Nat) → (head : Option Nat) → Option (Option Nat)
  | _, none => some none
  | 0, some _ => none
  | fuel + 1, some p => do
      let node ← arena.load p
      if condition p node then some (some p) else find condition arena fuel node.next

/-- What the nodes of a list give, one after the other. -/
def visit {β : Type} (give : α → List β) (arena : Arena α) :
    (fuel : Nat) → (head : Option Nat) → Option (List β)
  | _, none => some []
  | 0, some _ => none
  | fuel + 1, some p => do
      let node ← arena.load p
      let rest ← visit give arena fuel node.next
      some (give node.value ++ rest)

/-- Take a node out of a list, of which the new first node is returned. -/
def unlink (arena : Arena α) (head : Option Nat) (p : Nat) : Option (Arena α × Option Nat) := do
  let node ← arena.load p
  if head = some p then some (arena, node.next)
  else
    match ← arena.find (fun _ other => other.next = some p) arena.allocated.length head with
    | none => some (arena, head)
    | some before => do
        let arena ← arena.setNext before node.next
        some (arena, head)

section Sorting

variable {ι : Type} [LinearOrder ι] (key : α → ι)

/-- The node behind which another one is linked. -/
def placeAfter (arena : Arena α) (p : Nat) : (fuel curr : Nat) → Option Nat
  | 0, _ => none
  | fuel + 1, curr => do
      let node ← arena.load curr
      match node.next with
      | none => some curr
      | some after => do
          let afterNode ← arena.load after
          let inserted ← arena.load p
          if key afterNode.value ≤ key inserted.value then placeAfter arena p fuel after
          else some curr

/-- Link a node into a sorted list, of which the new first node is returned. -/
def insertSorted (arena : Arena α) (sorted : Option Nat) (p : Nat) :
    Option (Arena α × Option Nat) :=
  match sorted with
  | none => do
      let arena ← arena.setNext p none
      some (arena, some p)
  | some first => do
      let inserted ← arena.load p
      let firstNode ← arena.load first
      if key inserted.value < key firstNode.value then
        let arena ← arena.setNext p (some first)
        some (arena, some p)
      else
        let curr ← arena.placeAfter key p arena.allocated.length first
        let currNode ← arena.load curr
        let arena ← arena.setNext p currNode.next
        let arena ← arena.setNext curr (some p)
        some (arena, some first)

/-- Link the nodes of a list into a sorted list. -/
def sortInto : (fuel : Nat) → Arena α → (sorted head : Option Nat) →
    Option (Arena α × Option Nat)
  | _, arena, sorted, none => some (arena, sorted)
  | 0, _, _, some _ => none
  | fuel + 1, arena, sorted, some p => do
      let node ← arena.load p
      let (arena, sorted) ← arena.insertSorted key sorted p
      sortInto fuel arena sorted node.next

/-- Sort a list, of which the new first node is returned. -/
def sort (arena : Arena α) (head : Option Nat) : Option (Arena α × Option Nat) :=
  arena.sortInto key arena.allocated.length none head

end Sorting

/-! ## Lists -/

/-- The nodes of a list, all of them allocated. -/
structure Lists (arena : Arena α) (head : Option Nat) (ps : List Nat) : Prop where
  chain : Chain arena.next head ps
  allocated : ∀ p ∈ ps, p ∈ arena.allocated

variable {arena : Arena α} {head : Option Nat} {p : Nat} {ps : List Nat}

theorem load_of_mem (mem : p ∈ arena.allocated) : arena.load p = some (arena.cells p) :=
  if_pos mem

theorem store_of_mem (mem : p ∈ arena.allocated) (node : Node α) :
    arena.store p node = some { arena with cells := Function.update arena.cells p node } :=
  if_pos mem

theorem setNext_of_mem (mem : p ∈ arena.allocated) (next : Option Nat) :
    arena.setNext p next =
      some { arena with cells := Function.update arena.cells p ⟨arena.value p, next⟩ } := by
  rw [setNext, load_of_mem mem]
  exact store_of_mem mem _

/-- A change of links only. -/
structure Relinks (arena arena' : Arena α) : Prop where
  value : arena'.value = arena.value
  allocated : arena'.allocated = arena.allocated

theorem Relinks.refl (arena : Arena α) : arena.Relinks arena := ⟨rfl, rfl⟩

theorem Relinks.trans {arena' arena'' : Arena α} (first : arena.Relinks arena')
    (second : arena'.Relinks arena'') : arena.Relinks arena'' :=
  ⟨second.value.trans first.value, second.allocated.trans first.allocated⟩

/-- A link is changed, and nothing else. -/
theorem exists_setNext (mem : p ∈ arena.allocated) (next : Option Nat) :
    ∃ arena', arena.setNext p next = some arena' ∧ arena.Relinks arena' ∧
      arena'.next = Function.update arena.next p next := by
  refine ⟨_, setNext_of_mem mem next, ⟨?_, rfl⟩, ?_⟩
  · funext q
    by_cases same : q = p
    · subst same
      simp [value]
    · simp [value, Function.update_of_ne same]
  · funext q
    by_cases same : q = p
    · subst same
      simp [Arena.next]
    · simp [Arena.next, Function.update_of_ne same]

/-- A change of values only. -/
structure Revalues (arena arena' : Arena α) : Prop where
  next : arena'.next = arena.next
  allocated : arena'.allocated = arena.allocated

/-- A value is changed, and nothing else. -/
theorem exists_setValue (mem : p ∈ arena.allocated) (value : α) :
    ∃ arena', arena.store p { arena.cells p with value } = some arena' ∧
      arena.Revalues arena' ∧ arena'.value = Function.update arena.value p value := by
  refine ⟨_, store_of_mem mem _, ⟨?_, rfl⟩, ?_⟩
  · funext q
    by_cases same : q = p
    · subst same
      simp [Arena.next]
    · simp [Arena.next, Function.update_of_ne same]
  · funext q
    by_cases same : q = p
    · subst same
      simp [Arena.value]
    · simp [Arena.value, Function.update_of_ne same]

theorem exists_modify (mem : p ∈ arena.allocated) (f : α → α) :
    ∃ arena', arena.modify p f = some arena' ∧ arena.Revalues arena' ∧
      arena'.value = Function.update arena.value p (f (arena.value p)) := by
  rw [modify, load_of_mem mem]
  exact exists_setValue mem _

namespace Lists

theorem nodup (lists : arena.Lists head ps) : ps.Nodup := lists.chain.nodup

theorem length_le (lists : arena.Lists head ps) : ps.length ≤ arena.allocated.length :=
  (List.subperm_of_subset lists.nodup lists.allocated).length_le

theorem nil (arena : Arena α) : arena.Lists none [] := ⟨rfl, fun _ mem => by cases mem⟩

theorem tail (lists : arena.Lists head (p :: ps)) : arena.Lists (arena.next p) ps :=
  ⟨lists.chain.2, fun q mem => lists.allocated q (.tail _ mem)⟩

/-- A node that was just allocated is put in front. -/
theorem alloc (lists : arena.Lists head ps) (fresh : p ∉ arena.allocated) (value : α) :
    (arena.alloc p ⟨value, head⟩).Lists (some p) (p :: ps) := by
  have elsewhere : ∀ q ∈ ps, q ≠ p := fun q mem same => fresh (same ▸ lists.allocated q mem)
  constructor
  · refine ⟨rfl, ?_⟩
    have first : (arena.alloc p ⟨value, head⟩).next p = head := by
      simp [Arena.next, Arena.alloc]
    rw [first]
    apply lists.chain.congr
    intro q mem
    simp [Arena.next, Arena.alloc, Function.update_of_ne (elsewhere q mem)]
  · intro q mem
    cases mem with
    | head => exact .head _
    | tail _ mem => exact .tail _ (lists.allocated q mem)

theorem free (lists : arena.Lists head ps) (out : p ∉ ps) :
    (arena.free p).Lists head ps := by
  constructor
  · exact lists.chain
  · intro q mem
    have other : q ≠ p := fun same => out (same ▸ mem)
    exact (List.mem_erase_of_ne other).mpr (lists.allocated q mem)

theorem revalue {arena' : Arena α} (lists : arena.Lists head ps)
    (same : arena.Revalues arena') : arena'.Lists head ps := by
  constructor
  · rw [same.next]
    exact lists.chain
  · rw [same.allocated]
    exact lists.allocated

/-- The values of the nodes of a list are changed. -/
theorem forEach (f : Nat → α → α) {fuel : Nat} (lists : arena.Lists head ps)
    (enough : ps.length ≤ fuel) :
    ∃ arena', arena.forEach f fuel head = some arena' ∧ arena.Revalues arena' ∧
      ∀ p, arena'.value p = if p ∈ ps then f p (arena.value p) else arena.value p := by
  induction ps generalizing arena head fuel with
  | nil =>
      rw [show head = none from lists.chain]
      refine ⟨arena, ?_, ⟨rfl, rfl⟩, fun p => (if_neg List.not_mem_nil).symm⟩
      cases fuel with
      | zero => rfl
      | succ fuel => rfl
  | cons first ps ih =>
  obtain _ | fuel := fuel
  · cases enough
  have fresh := (List.nodup_cons.mp lists.nodup).1
  have mem := lists.allocated first (List.mem_cons_self ..)
  obtain ⟨arena₁, stored, same, value⟩ :=
    exists_setValue mem (f first (arena.value first))
  obtain ⟨arena', walked, same', value'⟩ :=
    ih (lists.tail.revalue same) (Nat.le_of_succ_le_succ enough)
  refine ⟨arena', ?_, ⟨same'.next.trans same.next, same'.allocated.trans same.allocated⟩, ?_⟩
  · rw [lists.chain.1, Arena.forEach, load_of_mem mem]
    have stored : arena.store first
        ⟨f first (arena.cells first).value, (arena.cells first).next⟩ = some arena₁ := stored
    simp only [Option.bind_eq_bind, Option.bind_some, stored]
    exact walked
  · intro p
    rw [value' p, value]
    by_cases isFirst : p = first
    · rw [if_neg (isFirst ▸ fresh), isFirst, Function.update_self,
        if_pos (List.mem_cons_self ..)]
    · simp only [Function.update_of_ne isFirst, List.mem_cons, isFirst, false_or]

/-- The first node of a list that meets a condition is found. -/
theorem find (condition : Nat → Node α → Bool) {fuel : Nat} (lists : arena.Lists head ps)
    (enough : ps.length ≤ fuel) :
    arena.find condition fuel head =
      some (ps.find? fun p => condition p (arena.cells p)) := by
  induction ps generalizing head fuel with
  | nil =>
      rw [show head = none from lists.chain]
      cases fuel with
      | zero => rfl
      | succ fuel => rfl
  | cons first ps ih =>
  obtain _ | fuel := fuel
  · cases enough
  have mem := lists.allocated first (List.mem_cons_self ..)
  rw [lists.chain.1, Arena.find, load_of_mem mem]
  simp only [Option.bind_eq_bind, Option.bind_some]
  split
  next met =>
    rw [List.find?_cons]
    simp [met]
  next unmet =>
    rw [List.find?_cons]
    simp only [unmet]
    exact ih lists.tail (Nat.le_of_succ_le_succ enough)

theorem visit {β : Type} (give : α → List β) {fuel : Nat} (lists : arena.Lists head ps)
    (enough : ps.length ≤ fuel) :
    arena.visit give fuel head = some (ps.flatMap fun p => give (arena.value p)) := by
  induction ps generalizing head fuel with
  | nil =>
      rw [show head = none from lists.chain]
      cases fuel with
      | zero => rfl
      | succ fuel => rfl
  | cons first ps ih =>
  obtain _ | fuel := fuel
  · cases enough
  have load : arena.load first = some ⟨arena.value first, arena.next first⟩ :=
    load_of_mem (lists.allocated first (List.mem_cons_self ..))
  have rest := ih lists.tail (Nat.le_of_succ_le_succ enough)
  rw [lists.chain.1, Arena.visit]
  simp only [load, rest, Option.bind_eq_bind, Option.bind_some, List.flatMap_cons]

/-- The node before another one is found by its link. -/
theorem find_before {front back : List Nat} {before : Nat}
    (chain : Chain arena.next head (front ++ before :: p :: back)) :
    (front ++ before :: p :: back).find? (fun q => decide (arena.next q = some p)) =
      some before := by
  induction front generalizing head with
  | nil =>
      have link : arena.next before = some p := chain.2.1
      rw [List.nil_append, List.find?_cons]
      simp [link]
  | cons first front ih =>
  have other : arena.next first ≠ some p := by
    intro link
    have fresh := chain.2.nodup
    cases front with
    | nil =>
        have same := chain.2.1.symm.trans link
        simp [Option.some.inj same] at fresh
    | cons second front =>
        have same := chain.2.1.symm.trans link
        simp [Option.some.inj same] at fresh
  rw [List.cons_append, List.find?_cons]
  simp only [other, decide_false]
  exact ih chain.2

/-- A node is taken out of a list. -/
theorem unlink (lists : arena.Lists head ps) (mem : p ∈ ps) :
    ∃ arena' head', arena.unlink head p = some (arena', head') ∧ arena.Relinks arena' ∧
      arena'.Lists head' (ps.erase p) := by
  have allocated := lists.allocated p mem
  have load : arena.load p = some ⟨arena.value p, arena.next p⟩ := load_of_mem allocated
  obtain ⟨front, back, fresh, rfl, erased⟩ := List.exists_erase_eq mem
  rw [erased]
  unfold Arena.unlink
  simp only [load, Option.bind_eq_bind, Option.bind_some]
  cases List.eq_nil_or_concat' front with
  | inl empty =>
      subst empty
      rw [if_pos lists.chain.1]
      exact ⟨arena, arena.next p, rfl, .refl arena, lists.tail⟩
  | inr concat =>
  obtain ⟨front, before, rfl⟩ := concat
  rw [List.append_assoc, List.singleton_append] at lists
  have other : head ≠ some p := by
    intro first
    cases front with
    | nil =>
        have same := lists.chain.1.symm.trans first
        simp [Option.some.inj same] at fresh
    | cons second front =>
        have same := lists.chain.1.symm.trans first
        simp [Option.some.inj same] at fresh
  have found := lists.find (fun _ other => decide (other.next = some p)) lists.length_le
  have beforeMem := lists.allocated before (by simp)
  obtain ⟨arena', linked, same, next⟩ := exists_setNext beforeMem (arena.next p)
  refine ⟨arena', head, ?_, same, ?_⟩
  · rw [if_neg other, found]
    have first := find_before lists.chain
    unfold Arena.next at first
    rw [first]
    simp only [Option.bind_some]
    rw [linked]
    rfl
  have nodup : (p :: (front ++ [before] ++ back)).Nodup := by
    apply List.nodup_middle.mp
    rw [List.append_assoc]
    exact lists.nodup
  have out := (List.nodup_cons.mp nodup).1
  have kept : ∀ q ∈ front ++ before :: back, q ≠ p := by
    intro q qMem same
    rw [same] at qMem
    exact out (by simpa using qMem)
  constructor
  · rw [next, List.append_assoc, List.singleton_append]
    apply lists.chain.unlink.congr
    intro q qMem
    rw [Function.update_of_ne (kept q qMem)]
  · intro q qMem
    rw [same.allocated]
    apply lists.allocated
    simp only [List.append_assoc, List.singleton_append, List.mem_append,
      List.mem_cons] at qMem ⊢
    tauto

section Sorting

variable {ι : Type} [LinearOrder ι] (key : α → ι)

/-- The place of a node is found, and linked there it makes a longer list. -/
theorem placeAfter {curr fuel : Nat} (lists : arena.Lists (some curr) (curr :: ps))
    (mem : p ∈ arena.allocated) (fresh : p ∉ curr :: ps) (enough : ps.length < fuel) :
    ∃ before ∈ curr :: ps, arena.placeAfter key p fuel curr = some before ∧
      Chain (Function.update (Function.update arena.next p (arena.next before)) before (some p))
        (some curr) (curr :: insertStable (fun q => key (arena.value q)) p ps) := by
  induction ps generalizing curr fuel with
  | nil =>
      obtain _ | fuel := fuel
      · cases enough
      have link : arena.next curr = none := lists.chain.2
      have load : arena.load curr = some ⟨arena.value curr, arena.next curr⟩ :=
        load_of_mem (lists.allocated curr (List.mem_cons_self ..))
      have other : p ≠ curr := by simpa using fresh
      refine ⟨curr, List.mem_cons_self .., ?_, rfl, ?_⟩
      · simp only [Arena.placeAfter, load, link, Option.bind_eq_bind, Option.bind_some]
      · rw [Function.update_self]
        refine ⟨rfl, ?_⟩
        rw [Function.update_of_ne other, Function.update_self]
        exact link
  | cons after ps ih =>
  obtain _ | fuel := fuel
  · cases enough
  have link : arena.next curr = some after := lists.chain.2.1
  have currMem := lists.allocated curr (List.mem_cons_self ..)
  have afterMem := lists.allocated after (.tail _ (List.mem_cons_self ..))
  have load : arena.load curr = some ⟨arena.value curr, some after⟩ := by
    rw [← link]
    exact load_of_mem currMem
  have loadAfter : arena.load after = some ⟨arena.value after, arena.next after⟩ :=
    load_of_mem afterMem
  have loadNew : arena.load p = some ⟨arena.value p, arena.next p⟩ := load_of_mem mem
  have freshTail : p ∉ after :: ps := fun mem => fresh (.tail _ mem)
  have nodup := List.nodup_cons.mp lists.nodup
  have other : curr ≠ p := fun same => fresh (same ▸ List.mem_cons_self ..)
  by_cases further : key (arena.value after) ≤ key (arena.value p)
  · have tail : arena.Lists (some after) (after :: ps) := link ▸ lists.tail
    obtain ⟨before, beforeMem, found, chain⟩ :=
      ih tail freshTail (Nat.lt_of_succ_lt_succ enough)
    refine ⟨before, .tail _ beforeMem, ?_, rfl, ?_⟩
    · simp only [Arena.placeAfter, load, loadAfter, loadNew, Option.bind_eq_bind,
        Option.bind_some, if_pos further]
      exact found
    · have apart : curr ≠ before := fun same => nodup.1 (same ▸ beforeMem)
      rw [Function.update_of_ne apart, Function.update_of_ne other, link, insertStable,
        if_neg (not_lt.mpr further)]
      exact chain
  · refine ⟨curr, List.mem_cons_self .., ?_, rfl, ?_⟩
    · simp only [Arena.placeAfter, load, loadAfter, loadNew, Option.bind_eq_bind,
        Option.bind_some, if_neg further]
    · rw [Function.update_self, insertStable, if_pos (not_le.mp further)]
      refine ⟨rfl, ?_⟩
      rw [Function.update_of_ne (Ne.symm other), Function.update_self, link]
      have rest : Chain arena.next (some after) (after :: ps) := link ▸ lists.chain.2
      apply rest.congr
      intro q qMem
      rw [Function.update_of_ne (ne_of_mem_of_not_mem qMem nodup.1),
        Function.update_of_ne (ne_of_mem_of_not_mem qMem freshTail)]

/-- A node is linked into a sorted list. -/
theorem insertSorted {sorted : Option Nat} (lists : arena.Lists sorted ps)
    (mem : p ∈ arena.allocated) (fresh : p ∉ ps) :
    ∃ arena' sorted', arena.insertSorted key sorted p = some (arena', sorted') ∧
      arena.Relinks arena' ∧
      arena'.Lists sorted' (insertStable (fun q => key (arena.value q)) p ps) ∧
      ∀ q, q ∉ p :: ps → arena'.next q = arena.next q := by
  have members : ∀ q ∈ insertStable (fun q => key (arena.value q)) p ps, q ∈ arena.allocated := by
    intro q qMem
    cases List.mem_cons.mp ((insertStable_perm p ps).mem_iff.mp qMem) with
    | inl same => exact same ▸ mem
    | inr qMem => exact lists.allocated q qMem
  cases ps with
  | nil =>
      obtain ⟨arena', linked, same, next⟩ := exists_setNext mem none
      refine ⟨arena', some p, ?_, same, ⟨?_, same.allocated ▸ members⟩, ?_⟩
      · rw [show sorted = none from lists.chain]
        simp only [Arena.insertSorted, linked, Option.bind_eq_bind, Option.bind_some]
      · refine ⟨rfl, ?_⟩
        rw [next, Function.update_self]
        rfl
      · intro q out
        rw [next, Function.update_of_ne (List.ne_of_not_mem_cons out)]
  | cons first ps =>
  have isFirst : sorted = some first := lists.chain.1
  subst isFirst
  have load : arena.load p = some ⟨arena.value p, arena.next p⟩ := load_of_mem mem
  have loadFirst : arena.load first = some ⟨arena.value first, arena.next first⟩ :=
    load_of_mem (lists.allocated first (List.mem_cons_self ..))
  by_cases less : key (arena.value p) < key (arena.value first)
  · obtain ⟨arena', linked, same, next⟩ := exists_setNext mem (some first)
    refine ⟨arena', some p, ?_, same, ⟨?_, same.allocated ▸ members⟩, ?_⟩
    · simp only [Arena.insertSorted, load, loadFirst, Option.bind_eq_bind, Option.bind_some,
        if_pos less, linked]
    · rw [next, insertStable, if_pos less]
      exact lists.chain.push fresh
    · intro q out
      rw [next, Function.update_of_ne (List.ne_of_not_mem_cons out)]
  obtain ⟨before, beforeMem, found, chain⟩ :=
    lists.placeAfter key mem fresh (Nat.lt_of_succ_le lists.length_le)
  have loadBefore : arena.load before = some ⟨arena.value before, arena.next before⟩ :=
    load_of_mem (lists.allocated before beforeMem)
  obtain ⟨arena₁, linked₁, same₁, next₁⟩ := exists_setNext mem (arena.next before)
  have beforeMem₁ : before ∈ arena₁.allocated :=
    same₁.allocated ▸ lists.allocated before beforeMem
  obtain ⟨arena', linked, same, next⟩ := exists_setNext beforeMem₁ (some p)
  have relinks := same₁.trans same
  refine ⟨arena', some first, ?_, relinks, ⟨?_, relinks.allocated ▸ members⟩, ?_⟩
  · simp only [Arena.insertSorted, load, loadFirst, Option.bind_eq_bind, Option.bind_some,
      if_neg less, found, loadBefore, linked₁, linked]
  · rw [next, next₁, insertStable, if_neg less]
    exact chain
  · intro q out
    have apart : q ≠ before := fun same => out (same ▸ .tail _ beforeMem)
    rw [next, Function.update_of_ne apart, next₁,
      Function.update_of_ne (List.ne_of_not_mem_cons out)]

/-- The nodes of a list are linked into a sorted list. -/
theorem sortInto {fuel : Nat} {sorted : Option Nat} {qs : List Nat}
    (lists : arena.Lists sorted qs) (rest : arena.Lists head ps) (apart : ps.Disjoint qs)
    (enough : ps.length ≤ fuel) :
    ∃ arena' head', arena.sortInto key fuel sorted head = some (arena', head') ∧
      arena.Relinks arena' ∧
      arena'.Lists head' (sortStable (fun q => key (arena.value q)) ps qs) := by
  induction ps generalizing arena sorted head fuel qs with
  | nil =>
      rw [show head = none from rest.chain]
      refine ⟨arena, sorted, ?_, .refl arena, lists⟩
      cases fuel with
      | zero => rfl
      | succ fuel => rfl
  | cons p ps ih =>
  obtain _ | fuel := fuel
  · cases enough
  have mem := rest.allocated p (List.mem_cons_self ..)
  have fresh : p ∉ qs := apart (List.mem_cons_self ..)
  obtain ⟨arena₁, sorted₁, inserted, same₁, lists₁, kept⟩ :=
    lists.insertSorted key mem fresh
  have later := (List.nodup_cons.mp rest.nodup).1
  have rest₁ : arena₁.Lists (arena.next p) ps := by
    constructor
    · apply rest.tail.chain.congr
      intro q qMem
      apply kept
      intro again
      cases List.mem_cons.mp again with
      | inl same => exact later (same ▸ qMem)
      | inr again => exact apart (.tail _ qMem) again
    · rw [same₁.allocated]
      exact rest.tail.allocated
  have apart₁ : ps.Disjoint (insertStable (fun q => key (arena.value q)) p qs) := by
    intro q qMem again
    cases List.mem_cons.mp ((insertStable_perm p qs).mem_iff.mp again) with
    | inl same => exact later (same ▸ qMem)
    | inr again => exact apart (.tail _ qMem) again
  obtain ⟨arena', head', sortedRest, same, lists'⟩ :=
    ih lists₁ rest₁ apart₁ (Nat.le_of_succ_le_succ enough)
  rw [same₁.value] at lists'
  refine ⟨arena', head', ?_, same₁.trans same, lists'⟩
  rw [rest.chain.1]
  have load : arena.load p = some ⟨arena.value p, arena.next p⟩ := load_of_mem mem
  simp only [Arena.sortInto, load, inserted, Option.bind_eq_bind, Option.bind_some]
  exact sortedRest

/-- A list is sorted.  Its nodes are linked in the order of their keys. -/
theorem sort (lists : arena.Lists head ps) :
    ∃ arena' head', arena.sort key head = some (arena', head') ∧ arena.Relinks arena' ∧
      arena'.Lists head' (sortStable (fun p => key (arena.value p)) ps []) :=
  (Lists.nil arena).sortInto key lists (List.disjoint_nil_right ps) lists.length_le

end Sorting

end Lists

end Arena

end Charis.Lib
