/-
  Well-formed arenas.

  Parent links and child lists are two records of one relation, and nothing in the type
  `Arena` makes them agree. `Arena.WellFormed` says that they do, and that the nodes
  form a forest in which every child is where its role allows it to be:

    - links stay inside the arena;
    - a node is listed below its parent, once, and nowhere else;
    - no node is above itself;
    - a role that holds a single child labels at most one entry of a child list;
    - every child is of a category that its role takes.

  "Above" is `Arena.Ancestor`: one or more steps along parent links.

  Being well formed is a property and not part of the type, because there are arenas
  without it: a setter that is given the id of the node it is about to allocate hangs the
  node below itself.
-/
import SyntaxForest.Arena.Basic

namespace SyntaxForest.Arena

/-- From `n`, one or more steps along parent links lead to `x`. -/
inductive Ancestor (a : Arena) (x : NodeId) : NodeId → Prop
  | parent {n : NodeId} {d : Node} (hn : a.node? n = some d) (hp : d.parent = some x) :
    Ancestor a x n
  | above {n p : NodeId} {d : Node} (hn : a.node? n = some d) (hp : d.parent = some p)
    (h : Ancestor a x p) : Ancestor a x n

/-- The links of the arena describe a forest, with every child where its role allows it
    to be. -/
structure WellFormed (a : Arena) : Prop where
  /-- A parent is a node of the arena. -/
  parent_lt : ∀ (n p : Nat) (d : Node), a.node? n = some d → d.parent = some p → p < a.size
  /-- A child is a node of the arena. -/
  child_lt : ∀ (n : Nat) (d : Node) (c : Child),
    a.node? n = some d → c ∈ d.children → c.node < a.size
  /-- A node is listed below `p` exactly if `p` is its parent. -/
  listed_iff : ∀ (n p : Nat) (d e : Node), a.node? n = some d → a.node? p = some e →
    (n ∈ e.children.map (·.node) ↔ d.parent = some p)
  /-- No node is listed twice below the same parent. -/
  listed_once : ∀ (p : Nat) (e : Node), a.node? p = some e →
    (e.children.map (·.node)).Nodup
  /-- No node is above itself. -/
  acyclic : ∀ n : Nat, ¬ a.Ancestor n n
  /-- A role for a single child labels at most one entry. -/
  single_once : ∀ (p : Nat) (e : Node) (r : RoleId), a.node? p = some e →
    r.cardinality = .single → (e.children.allUnder r).length ≤ 1
  /-- Every child is of a category that its role takes. -/
  admitted : ∀ (p : Nat) (e : Node) (c : Child) (d : Node), a.node? p = some e →
    c ∈ e.children → a.node? c.node = some d → c.role.admits d.kind.category = true

/-- The arena without nodes is well formed. -/
theorem wellFormed_empty : WellFormed empty where
  parent_lt := by simp [node?, empty]
  child_lt := by simp [node?, empty]
  listed_iff := by simp [node?, empty]
  listed_once := by simp [node?, empty]
  acyclic := by
    intro n h
    cases h <;> simp_all [node?, empty]
  single_once := by simp [node?, empty]
  admitted := by simp [node?, empty]

end SyntaxForest.Arena
