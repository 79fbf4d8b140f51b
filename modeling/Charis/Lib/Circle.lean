import Charis.Lib.Chain

/-!
# Going round a list

When the last node of a linked list counts as linked to the first one, a walk from
any node meets all of them: first those behind it, then those from the head on.
-/

namespace Charis.Lib

variable {α : Type*}

/-- Each of the nodes is linked to the one after it, and the last one to `back`. -/
def Circle (succ : α → Option α) (back : α) : List α → Prop
  | [] => True
  | [last] => succ last = some back
  | node :: after :: nodes => succ node = some after ∧ Circle succ back (after :: nodes)

/-- The link of a node, or the head of the list behind the last one. -/
def wrap (next : α → Option α) (head : Option α) (node : α) : Option α :=
  (next node).or head

/-- Where a walk begins: behind a node, or at the head. -/
def entry (next : α → Option α) (head : Option α) : Option α → Option α
  | none => head
  | some node => wrap next head node

/-- The order in which a walk meets the nodes of a list that goes on behind one of
them and ends with it. -/
def orderFrom [DecidableEq α] (nodes : List α) : Option α → List α
  | none => nodes
  | some node =>
      (nodes.dropWhile (· ≠ node)).drop 1 ++ nodes.takeWhile (· ≠ node) ++ [node]

variable {succ next : α → Option α} {head : Option α} {back node : α} {nodes : List α}

theorem Circle.append {front : List α} (first : Circle succ node front)
    (second : Circle succ back (node :: nodes)) : Circle succ back (front ++ node :: nodes) := by
  induction front with
  | nil => exact second
  | cons early front ih =>
      cases front with
      | nil => exact ⟨first, second⟩
      | cons after front => exact ⟨first.1, ih first.2⟩

/-- The end of a list goes round to its head. -/
theorem Chain.circle {start : Option α} (chain : Chain next start nodes)
    (known : head = some back) : Circle (wrap next head) back nodes := by
  induction nodes generalizing start with
  | nil => trivial
  | cons node nodes ih =>
  cases nodes with
  | nil =>
      have last : next node = none := chain.2
      rw [Circle, wrap, last, known]
      rfl
  | cons after nodes =>
      refine ⟨?_, ih chain.2⟩
      rw [wrap, chain.2.1]
      rfl

/-- The part of a list in front of a node goes on with that node. -/
theorem Chain.circle_front {start : Option α} {front : List α}
    (chain : Chain next start (front ++ node :: nodes)) :
    Circle (wrap next head) node front := by
  induction front generalizing start with
  | nil => trivial
  | cons early front ih =>
  cases front with
  | nil =>
      rw [Circle, wrap, chain.2.1]
      rfl
  | cons after front =>
      refine ⟨?_, ih chain.2⟩
      rw [wrap, chain.2.1]
      rfl

section Order

variable [DecidableEq α]

/-- The order behind a node of a list without repetitions. -/
theorem orderFrom_split {front back : List α} (fresh : node ∉ front) :
    orderFrom (front ++ node :: back) (some node) = back ++ front ++ [node] := by
  have passes : ∀ early ∈ front, (decide (early ≠ node)) = true := by
    intro early member
    rw [decide_eq_true_eq]
    exact ne_of_mem_of_not_mem member fresh
  rw [orderFrom, List.dropWhile_append_of_pos passes, List.takeWhile_append_of_pos passes]
  simp

/-- Going round meets exactly the nodes of the list. -/
theorem orderFrom_perm {current : Option α} (nodup : nodes.Nodup)
    (listed : ∀ node ∈ current, node ∈ nodes) : (orderFrom nodes current).Perm nodes := by
  cases current with
  | none => exact List.Perm.refl nodes
  | some node =>
  obtain ⟨front, back, rfl⟩ := List.append_of_mem (listed node rfl)
  have fresh : node ∉ front := by
    intro early
    exact (List.nodup_append.mp nodup).2.2 node early node (by simp) rfl
  rw [orderFrom_split fresh, List.append_assoc]
  calc back ++ (front ++ [node])
      |>.Perm ((front ++ [node]) ++ back) := List.perm_append_comm
    _ = front ++ node :: back := by rw [List.append_assoc, List.singleton_append]

/-- From behind any node, or from the head, the order is a walk that closes. -/
theorem Chain.circle_orderFrom {current : Option α} (chain : Chain next head nodes)
    (listed : ∀ node ∈ current, node ∈ nodes) (occupied : nodes ≠ []) :
    ∃ first rest, orderFrom nodes current = first :: rest ∧
      Circle (wrap next head) first (first :: rest) ∧
      entry next head current = some first := by
  cases current with
  | none =>
      cases nodes with
      | nil => exact (occupied rfl).elim
      | cons first rest => exact ⟨first, rest, rfl, chain.circle chain.1, chain.1⟩
  | some node =>
  obtain ⟨front, behind, rfl⟩ := List.append_of_mem (listed node rfl)
  have fresh : node ∉ front := by
    intro early
    exact (List.nodup_append.mp chain.nodup).2.2 node early node (by simp) rfl
  rw [orderFrom_split fresh]
  cases behind with
  | nil =>
      have last : next node = none := chain.suffix.2
      have starts : wrap next head node = head := by
        rw [wrap, last]
        rfl
      rw [List.nil_append]
      cases whole : front ++ [node] with
      | nil => simp at whole
      | cons first rest =>
          rw [whole] at chain
          exact ⟨first, rest, rfl, chain.circle chain.1, starts.trans chain.1⟩
  | cons first rest =>
  have tail : Chain next (next node) (first :: rest) := chain.suffix.2
  have starts : wrap next head node = some first := by
    rw [wrap, tail.1]
    rfl
  have before : front ++ node :: first :: rest = front ++ [node] ++ first :: rest := by
    rw [List.append_assoc, List.singleton_append]
  rw [before] at chain
  cases whole : front ++ [node] with
  | nil => simp at whole
  | cons start others =>
  rw [whole] at chain
  have round : Circle (wrap next head) first ((first :: rest) ++ start :: others) :=
    (tail.circle chain.1).append chain.circle_front
  refine ⟨first, rest ++ start :: others, ?_, round, starts⟩
  rw [List.append_assoc, whole]
  rfl

end Order

end Charis.Lib
