/-
  Structural equality.

  Two subtrees, possibly of different arenas, are structurally equal when their roots
  have equal kinds and their children carry the same roles in the same order, pairwise
  structurally equal. Ids do not matter. Tokens do.

  A pair of nodes is settled in full before anything below it is looked at: kinds
  first, then the roles of all children. Of the children the last pair is compared
  first. On sound arenas the order cannot be seen; it shows when the first arena has
  links to nodes that are gone, where one order finds a difference and another runs
  into the missing node.
-/
import SyntaxForest.Arena.Basic

namespace SyntaxForest.Arena

/-- Compare the subtrees at `x` and `y`, at most `fuel` levels down. -/
def equalBelow (a b : Arena) : Nat → NodeId → NodeId → Except Fault Bool
  | 0, _, _ => .error .endless
  | fuel + 1, x, y => do
    let d ← a.node x
    let e ← b.node y
    if d.kind = e.kind ∧ d.children.map (·.role) = e.children.map (·.role) then
      (d.children.zip e.children).reverse.allM fun (c, c') =>
        equalBelow a b fuel c.node c'.node
    else return false

/-- Are the subtree at `x` in `a` and the subtree at `y` in `b` the same tree? -/
def structurallyEqual (a : Arena) (x : NodeId) (b : Arena) (y : NodeId) :
    Except Fault Bool :=
  equalBelow a b (a.size + 1) x y

end SyntaxForest.Arena
