/-
  Walks: everything at and below a node, in the order of the text.

  Both walks of this module are pre-order: a node comes before its children, and the
  children come in the order of the child list, each with all that is below it.
  `Arena.descendants` lists the nodes. It keeps a stack of nodes that it still has to
  come by: the one on top is next, and its children take its place on the stack, the
  first of them on top. `Arena.walk` is the log that a visitor keeps which is told its
  depth, writes down which of its cases it was called for, and then visits every child.

  The nodes on a path downwards are all different, so no path is longer than the arena
  has nodes, and no walk comes by more nodes than there are. That bounds the depth of
  the one walk and the number of steps of the other; the one step to spare is for an id
  that leads out of the arena, so that such an id is reported as what it is.
-/
import SyntaxForest.Arena.Basic

namespace SyntaxForest

/-- An entry in the log of a walk. -/
structure Visit where
  depth : Nat
  handler : Handler
  node : NodeId
deriving DecidableEq

namespace Arena

/-- One step of a walk: the node on top of the stack, and the stack after it. Without a
    node on the stack the walk is at its end. -/
def advance (a : Arena) : List NodeId → Except Fault (Option (NodeId × List NodeId))
  | [] => return none
  | n :: later => do
    let cs ← a.children n
    -- the last child is put down first, so that the first child is on top
    return some (n, cs.reverse.foldl (fun stack c => c.node :: stack) later)

/-- Go on with a walk until its end, for at most `fuel` steps. The nodes come after those
    that were `seen` before, which are given last first. -/
def collect (a : Arena) : Nat → List NodeId → List NodeId → Except Fault (List NodeId)
  | 0, _, _ => .error .endless
  | fuel + 1, stack, seen => do
    match ← a.advance stack with
    | none => return seen.reverse
    | some (n, stack) => collect a fuel stack (n :: seen)

/-- The node `n` and everything below it, in pre-order. -/
def descendants (a : Arena) (n : NodeId) : Except Fault (List NodeId) :=
  a.collect (a.size + 1) [n] []

/-- The visits at and below `n`, which is at the given depth. -/
def visits (a : Arena) : Nat → Nat → NodeId → Except Fault (List Visit)
  | 0, _, _ => .error .endless
  | fuel + 1, depth, n => do
    let d ← a.node n
    let below ← d.children.mapM fun c => visits a fuel (depth + 1) c.node
    return ⟨depth, d.kind.handler, n⟩ :: below.flatten

/-- The log of a visitor that starts at `n` and visits every child of what it visits. -/
def walk (a : Arena) (n : NodeId) : Except Fault (List Visit) :=
  a.visits (a.size + 1) 0 n

end Arena

end SyntaxForest
