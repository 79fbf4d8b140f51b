import Mathlib

/-!
# Radix trees

A radix tree is stored as a graph: every node has at most one child per index,
and a path of indices leads from the root to at most one node.  The tree is
unshared when no node is reached by two paths.  In an unshared tree, pointing
one slot at a new node changes what is reached along exactly one path.
-/

namespace Charis.Lib.RadixTree

variable {Node Index : Type*}

/-- Follow a path of indices from a node. -/
def descend (child : Node → Index → Option Node) : Node → List Index → Option Node
  | node, [] => some node
  | node, index :: path => (child node index).bind (descend child · path)

/-- No node is reached by two different paths of length at most `depth`. -/
def Unshared (depth : Nat) (child : Node → Index → Option Node) (root : Node) : Prop :=
  ∀ first second node, first.length ≤ depth → second.length ≤ depth →
    descend child root first = some node → descend child root second = some node →
    first = second

section Descend

variable {child child' : Node → Index → Option Node} {root parent fresh : Node}
  {depth : Nat} {path : List Index} {index : Index}

@[simp] theorem descend_nil : descend child root [] = some root := rfl

theorem descend_append (first second : List Index) :
    descend child root (first ++ second) =
      (descend child root first).bind (descend child · second) := by
  induction first generalizing root with
  | nil => rfl
  | cons index first ih =>
      simp only [List.cons_append, descend]
      cases child root index with
      | none => rfl
      | some node => exact ih

theorem descend_snoc (path : List Index) (index : Index) :
    descend child root (path ++ [index]) =
      (descend child root path).bind (child · index) := by
  rw [descend_append]
  cases descend child root path with
  | none => rfl
  | some node =>
      simp only [descend, Option.bind_some]
      cases child node index <;> rfl

/-- A path reaches a node only when all its prefixes do. -/
theorem descend_of_snoc {node : Node}
    (reached : descend child root (path ++ [index]) = some node) :
    ∃ parent, descend child root path = some parent ∧ child parent index = some node := by
  rw [descend_snoc] at reached
  exact Option.bind_eq_some_iff.mp reached

/-- Two child functions that agree on the nodes above `depth` reach the same
nodes. -/
theorem descend_congr
    (agree : ∀ path node, path.length < depth → descend child root path = some node →
      ∀ index, child' node index = child node index)
    (path : List Index) (short : path.length ≤ depth) :
    descend child' root path = descend child root path := by
  induction path using List.reverseRecOn with
  | nil => rfl
  | append_singleton path index ih =>
      simp only [List.length_append, List.length_singleton] at short
      rw [descend_snoc, descend_snoc, ih (by omega)]
      cases reached : descend child root path with
      | none => rfl
      | some node => exact agree path node (by omega) reached index

/-- The slot `index` of the node at `path` is pointed at `fresh`; every other
slot of the tree is kept, and `fresh` has the children of the node it replaces,
or none when the slot was empty. -/
structure Relink (depth : Nat) (child child' : Node → Index → Option Node)
    (root : Node) (path : List Index) (index : Index) (parent fresh : Node) : Prop where
  short : path.length < depth
  reached : descend child root path = some parent
  linked : child' parent index = some fresh
  fresh_apart : ∀ path, path.length ≤ depth → descend child root path ≠ some fresh
  kept : ∀ query node, query.length < depth → descend child root query = some node →
    ∀ slot, (query, slot) ≠ (path, index) → child' node slot = child node slot
  inherits : path.length + 1 < depth →
    ∀ slot, child' fresh slot = (child parent index).bind (child · slot)

variable (relink : Relink depth child child' root path index parent fresh)

include relink

/-- After a relink the new node is reached along its path and every other path
reaches what it reached before. -/
theorem Relink.descend_eq [DecidableEq Index] (query : List Index)
    (short : query.length ≤ depth) :
    descend child' root query =
      if query = path ++ [index] then some fresh else descend child root query := by
  induction query using List.reverseRecOn with
  | nil =>
      rw [if_neg (by simp)]
      rfl
  | append_singleton query slot ih =>
  simp only [List.length_append, List.length_singleton] at short
  rw [descend_snoc, ih (by omega)]
  by_cases below : query = path ++ [index]
  · -- one step below the new node: its slots are those of the replaced node
    subst below
    have longer : path ++ [index] ++ [slot] ≠ path ++ [index] := by simp
    rw [if_pos rfl, if_neg longer, descend_snoc, descend_snoc, relink.reached]
    simp only [Option.bind_some]
    apply relink.inherits
    simp only [List.length_append, List.length_singleton] at short
    omega
  rw [if_neg below]
  by_cases here : query ++ [slot] = path ++ [index]
  · obtain ⟨rfl, same⟩ := List.append_inj' here rfl
    cases same
    rw [if_pos rfl, relink.reached]
    exact relink.linked
  · rw [if_neg here, descend_snoc]
    cases reached : descend child root query with
    | none => rfl
    | some node =>
        apply relink.kept query node (by omega) reached
        intro equal
        apply here
        cases equal
        rfl

theorem Relink.unshared [DecidableEq Index] (unique : Unshared depth child root) :
    Unshared depth child' root := by
  intro first second node firstShort secondShort firstReached secondReached
  rw [relink.descend_eq first firstShort] at firstReached
  rw [relink.descend_eq second secondShort] at secondReached
  split at firstReached <;> split at secondReached
  case isTrue.isTrue firstHere secondHere => rw [firstHere, secondHere]
  case isTrue.isFalse =>
      cases firstReached
      exact absurd secondReached (relink.fresh_apart second secondShort)
  case isFalse.isTrue =>
      cases secondReached
      exact absurd firstReached (relink.fresh_apart first firstShort)
  case isFalse.isFalse =>
      exact unique first second node firstShort secondShort firstReached secondReached

end Descend

end Charis.Lib.RadixTree
