/-
  Deep copies.

  A copy of a subtree is a new root with new nodes below it, the same kinds and roles
  all the way down. The nodes of a copy get their ids in a fixed order: first the root;
  then, whenever a node's turn comes, all of its children at once; and of these the
  last has its turn first, with all that is below it, and the first has it last.

  There are two occasions for copying. `Edit.importFrom` copies out of another arena.
  `Edit.cloneSubtree` copies within the arena it extends: what it reads next is read
  from an arena that the copy has already begun to fill. One recursion serves both. It
  is given the way to fetch a node of the source.
-/
import SyntaxForest.Arena.Edit

namespace SyntaxForest.Edit

/-- Give `copy` a copy of each of the children `cs`, without what is below them.
    Returns each child with its copy. -/
def copyChildren (fetch : NodeId → Edit Node) (copy : NodeId) :
    ChildList → Edit (List (NodeId × NodeId))
  | [] => return []
  | c :: cs => do
    let d ← fetch c.node
    let x ← alloc d.kind
    link copy c.role x
    let rest ← copyChildren fetch copy cs
    return (c.node, x) :: rest

/-- Copy all that is below `n` to below `copy`, at most `fuel` levels down. -/
def copyBelow (fetch : NodeId → Edit Node) : Nat → NodeId → NodeId → Edit Unit
  | 0, _, _ => throw .endless
  | fuel + 1, n, copy => do
    let d ← fetch n
    let pairs ← copyChildren fetch copy d.children
    pairs.reverse.forM fun (child, x) => copyBelow fetch fuel child x

/-- Copy the subtree at `n`. -/
def copyTree (fetch : NodeId → Edit Node) (fuel : Nat) (n : NodeId) : Edit NodeId := do
  let d ← fetch n
  let copy ← alloc d.kind
  copyBelow fetch fuel n copy
  return copy

/-- Copy a subtree of another arena. -/
def importFrom (source : Arena) (n : NodeId) : Edit NodeId :=
  copyTree (fun m => settled (source.node m)) (source.size + 1) n

/-- Copy a subtree of the arena itself. -/
def cloneSubtree (n : NodeId) : Edit NodeId := do
  let size ← look fun a => .ok a.size
  copyTree (fun m => look (·.node m)) (size + 1) n

end SyntaxForest.Edit
