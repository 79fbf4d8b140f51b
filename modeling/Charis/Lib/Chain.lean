import Mathlib

/-!
# Linked lists through the nodes

Every node carries a link to the next one, and a list is known by its first node.  A list
that comes to an end has no node twice, so a walk of as many steps as there are nodes meets
all of them.
-/

namespace Charis.Lib

variable {α : Type*}

/-- The nodes from a first one up to a node without a link. -/
def Chain (next : α → Option α) : Option α → List α → Prop
  | head, [] => head = none
  | head, node :: nodes => head = some node ∧ Chain next (next node) nodes

/-- The nodes that a walk of a number of steps meets. -/
def walk (next : α → Option α) : Nat → Option α → List α
  | 0, _ => []
  | _ + 1, none => []
  | steps + 1, some node => node :: walk next steps (next node)

namespace Chain

variable {next next' : α → Option α} {head : Option α} {node : α} {nodes nodes' : List α}

theorem unique (chain : Chain next head nodes) (chain' : Chain next head nodes') :
    nodes = nodes' := by
  induction nodes generalizing head nodes' with
  | nil =>
      cases nodes' with
      | nil => rfl
      | cons node' nodes' =>
          rw [show head = none from chain] at chain'
          cases chain'.1
  | cons node nodes ih =>
  cases nodes' with
  | nil =>
      rw [show head = none from chain'] at chain
      cases chain.1
  | cons node' nodes' =>
      have same := chain.1.symm.trans chain'.1
      rw [Option.some.injEq] at same
      subst same
      rw [ih chain.2 chain'.2]

theorem suffix {front : List α} (chain : Chain next head (front ++ node :: nodes)) :
    Chain next (some node) (node :: nodes) := by
  induction front generalizing head with
  | nil => exact ⟨rfl, chain.2⟩
  | cons first front ih => exact ih chain.2

theorem nodup (chain : Chain next head nodes) : nodes.Nodup := by
  induction nodes generalizing head with
  | nil => exact List.nodup_nil
  | cons node nodes ih =>
  rw [List.nodup_cons]
  refine ⟨?_, ih chain.2⟩
  intro again
  obtain ⟨front, rest, split⟩ := List.append_of_mem again
  -- the same node would begin a shorter list
  have shorter : Chain next (some node) (node :: rest) := by
    rw [split] at chain
    exact suffix chain.2
  have whole : Chain next (some node) (node :: nodes) := ⟨rfl, chain.2⟩
  have same := whole.unique shorter
  rw [List.cons.injEq, split] at same
  have lengths := congrArg List.length same.2
  simp only [List.length_append, List.length_cons] at lengths
  omega

/-- Only the links of the nodes in the list matter. -/
theorem congr (same : ∀ node ∈ nodes, next' node = next node) (chain : Chain next head nodes) :
    Chain next' head nodes := by
  induction nodes generalizing head with
  | nil => exact chain
  | cons node nodes ih =>
      refine ⟨chain.1, ?_⟩
      rw [same node (by simp)]
      exact ih (fun other member => same other (List.mem_cons_of_mem _ member)) chain.2

theorem walk_eq {steps : Nat} (chain : Chain next head nodes) (enough : nodes.length ≤ steps) :
    walk next steps head = nodes := by
  induction nodes generalizing head steps with
  | nil =>
      rw [show head = none from chain]
      cases steps <;> rfl
  | cons node nodes ih =>
      obtain _ | steps := steps
      · simp at enough
      · rw [chain.1, walk, ih chain.2 (Nat.le_of_succ_le_succ enough)]

theorem length_le [Fintype α] (chain : Chain next head nodes) :
    nodes.length ≤ Fintype.card α :=
  chain.nodup.length_le_card

variable [DecidableEq α]

theorem push (chain : Chain next head nodes) (fresh : node ∉ nodes) :
    Chain (Function.update next node head) (some node) (node :: nodes) := by
  refine ⟨rfl, ?_⟩
  rw [Function.update_self]
  apply chain.congr
  intro other member
  exact Function.update_of_ne (ne_of_mem_of_not_mem member fresh) _ _

/-- A node is linked behind the last one. -/
theorem snoc {front : List α} {last : α} (chain : Chain next head (front ++ [last]))
    (fresh : node ∉ front ++ [last]) :
    Chain (Function.update (Function.update next node none) last (some node)) head
      (front ++ [last, node]) := by
  induction front generalizing head with
  | nil =>
      have other : node ≠ last := by simpa using fresh
      refine ⟨chain.1, ?_⟩
      rw [Function.update_self]
      refine ⟨rfl, ?_⟩
      rw [Function.update_of_ne other, Function.update_self]
      rfl
  | cons first front ih =>
  rw [List.cons_append, List.mem_cons, not_or] at fresh
  have earlier : first ≠ last := by
    intro same
    exact (List.nodup_cons.mp chain.nodup).1 (by rw [same]; simp)
  refine ⟨chain.1, ?_⟩
  rw [Function.update_of_ne earlier, Function.update_of_ne (Ne.symm fresh.1)]
  exact ih chain.2 fresh.2

/-- The first node is taken off. -/
theorem pop (chain : Chain next head (node :: nodes)) :
    Chain (Function.update next node none) (next node) nodes := by
  apply chain.2.congr
  intro other member
  have fresh := (List.nodup_cons.mp chain.nodup).1
  exact Function.update_of_ne (ne_of_mem_of_not_mem member fresh) _ _

/-- A later node is taken off by linking the one before it to the one after it. -/
theorem unlink {front : List α} {before : α}
    (chain : Chain next head (front ++ before :: node :: nodes)) :
    Chain (Function.update (Function.update next before (next node)) node none) head
      (front ++ before :: nodes) := by
  induction front generalizing head with
  | nil =>
      have nodup := chain.nodup
      rw [List.nil_append, List.nodup_cons, List.nodup_cons, List.mem_cons, not_or] at nodup
      refine ⟨chain.1, ?_⟩
      rw [Function.update_of_ne nodup.1.1, Function.update_self]
      apply chain.2.2.congr
      intro other member
      rw [Function.update_of_ne (ne_of_mem_of_not_mem member nodup.2.1),
        Function.update_of_ne (ne_of_mem_of_not_mem member nodup.1.2)]
  | cons first front ih =>
      have other := (List.nodup_cons.mp chain.nodup).1
      refine ⟨chain.1, ?_⟩
      rw [Function.update_of_ne (ne_of_mem_of_not_mem (by simp) other).symm,
        Function.update_of_ne (ne_of_mem_of_not_mem (by simp) other).symm]
      exact ih chain.2

end Chain

/-- A walk without one of the links meets nothing else. -/
theorem walk_update_subset [DecidableEq α] (next : α → Option α) (node : α) (steps : Nat)
    (head : Option α) : walk (Function.update next node none) steps head ⊆ walk next steps head := by
  induction steps generalizing head with
  | zero => exact List.Subset.refl _
  | succ steps ih =>
  cases head with
  | none => exact List.Subset.refl _
  | some first =>
  simp only [walk]
  apply List.cons_subset_cons
  by_cases same : first = node
  · subst same
    rw [Function.update_self]
    cases steps <;> exact List.nil_subset _
  · rw [Function.update_of_ne same]
    exact ih _

end Charis.Lib
