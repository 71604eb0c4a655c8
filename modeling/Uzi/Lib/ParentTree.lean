import Mathlib.Tactic.Common

/-!
# Trees of parent pointers

A set of nodes with pointers to parents, and the nodes from which the pointers lead to the root.
-/

namespace ParentTree

variable {N : Type} {par par' : N → Option N} {root n : N}

/-- The parents of the node lead to the root. -/
inductive Below (par : N → Option N) (root : N) : N → Prop
  | root : Below par root root
  | child {n q : N} (parent : par n = some q) (below : Below par root q) : Below par root n

/-- Only the pointers of nodes on the way matter. -/
lemma Below.congr {live : N → Prop} (closed : ∀ n q, live n → par n = some q → live q)
    (same : ∀ n, live n → par' n = par n) (h : Below par root n) (hn : live n) : Below par' root n := by
  induction h with
  | root => exact .root
  | child parent _ ih => exact .child ((same _ hn).trans parent) (ih (closed _ _ hn parent))

/-- Nodes are made children of the root. -/
lemma Below.adopt (h : ∀ n, par' n = par n ∨ par' n = some root) (below : Below par root n) :
    Below par' root n := by
  induction below with
  | root => exact .root
  | @child n q parent _ ih =>
    cases h n with
    | inl same => exact .child (same.trans parent) ih
    | inr adopted => exact .child adopted .root

end ParentTree
