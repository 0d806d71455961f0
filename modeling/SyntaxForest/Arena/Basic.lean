/-
  The arena: a store of nodes that link to one another.

  Edits never remove nodes. An arena is the array of all nodes allocated so far, and a
  `NodeId` is a position in it. A node knows its kind, its parent and its children;
  the parent links and the child lists say the same thing twice, and every operation
  that changes one changes the other.

  Reading an arena can go wrong in one way only: the id is beyond the end. Each reader
  looks its nodes up with `Arena.node`, in the order in which its result needs them,
  so that a reader given two bad ids always complains about the same one.

  Contents: the store and its look-up; navigation from a node to its parent, children
  and siblings; the ancestor test; the checks that come before an attachment; the three
  ways of writing (`Arena.push`, `Arena.setParent`, `Arena.setChildren`) that all edits
  are made of; and `Arena.truncate`, with which an arena goes back to an earlier size.
-/
import SyntaxForest.Arena.Children

namespace SyntaxForest

/-- A node with its links. A new node has none. -/
structure Node where
  kind : Kind
  parent : Option NodeId := none
  children : ChildList := []
deriving DecidableEq

/-- All nodes allocated so far; a node's id is its position. -/
structure Arena where
  nodes : Array Node := #[]
deriving DecidableEq

namespace Arena

/-- The arena without nodes. -/
def empty : Arena := {}

/-- Number of nodes ever allocated. -/
def size (a : Arena) : Nat := a.nodes.size

def isEmpty (a : Arena) : Bool := a.nodes.isEmpty

/-! ### Look-up -/

/-- The node with the given id, if there is one. -/
def node? (a : Arena) (n : NodeId) : Option Node := a.nodes[n]?

/-- The node with the given id; an id beyond the end is a fault. -/
def node (a : Arena) (n : NodeId) : Except Fault Node :=
  match a.node? n with
  | some d => .ok d
  | none => .error (.outOfRange a.size n)

def kind (a : Arena) (n : NodeId) : Except Fault Kind := do
  return (← a.node n).kind

def parent? (a : Arena) (n : NodeId) : Except Fault (Option NodeId) := do
  return (← a.node n).parent

def children (a : Arena) (n : NodeId) : Except Fault ChildList := do
  return (← a.node n).children

/-- The first child under a role. -/
def child? (a : Arena) (n : NodeId) (r : RoleId) : Except Fault (Option NodeId) := do
  return (← a.children n).firstUnder? r

/-- All children under a role, in order. -/
def childrenUnder (a : Arena) (n : NodeId) (r : RoleId) : Except Fault (List NodeId) := do
  return (← a.children n).allUnder r

/-! ### Navigation -/

/-- Where a node sits: its parent, its role there, and its siblings on either side. -/
structure Place where
  parent : NodeId
  before : ChildList
  role : RoleId
  after : ChildList
deriving DecidableEq

/-- The place of a node below its parent; a root has none. -/
def place? (a : Arena) (n : NodeId) : Except Fault (Option Place) := do
  match ← a.parent? n with
  | none => return none
  | some p =>
    let cs ← a.children p
    return (ChildList.split? n cs).map fun (before, role, after) => ⟨p, before, role, after⟩

def isRoot (a : Arena) (n : NodeId) : Except Fault Bool := do
  return (← a.parent? n).isNone

def firstChild? (a : Arena) (n : NodeId) : Except Fault (Option NodeId) := do
  return (← a.children n).head?.map (·.node)

/-- The role under which a node is attached. -/
def roleOf? (a : Arena) (n : NodeId) : Except Fault (Option RoleId) := do
  return (← a.place? n).map (·.role)

def nextSibling? (a : Arena) (n : NodeId) : Except Fault (Option NodeId) := do
  return (← a.place? n).bind fun place => place.after.head?.map (·.node)

def prevSibling? (a : Arena) (n : NodeId) : Except Fault (Option NodeId) := do
  return (← a.place? n).bind fun place => place.before.getLast?.map (·.node)

/-- Does the chain of parents of `n` lead to `x` within `fuel` steps? -/
def leadsTo (a : Arena) (x : NodeId) : Nat → NodeId → Except Fault Bool
  | 0, _ => .error .endless
  | fuel + 1, n => do
    match ← a.parent? n with
    | none => return false
    | some p => if p = x then return true else leadsTo a x fuel p

/-- Is `x` a strict ancestor of `n`? Only `n` and the nodes above it are looked up. -/
def isAncestorOf (a : Arena) (x n : NodeId) : Except Fault Bool :=
  a.leadsTo x (a.size + 1) n

/-! ### Checks before an attachment -/

/-- May `c` be attached under the role `r` of `n`? Checked in this order: the role
    takes nodes of `c`'s category, `c` has no parent, and `c` is neither `n` nor an
    ancestor of `n`. -/
def checkAttach (a : Arena) (n : NodeId) (r : RoleId) (c : NodeId) : Except Fault Unit := do
  let d ← a.node c
  if r.admits d.kind.category then
    match d.parent with
    | some p => .error (.alreadyAttached c p)
    | none =>
      if c = n then .error (.cycle n c)
      else if ← a.isAncestorOf c n then .error (.cycle n c)
      else return ()
  else .error (.slotMismatch r d.kind.category)

/-- Check the entries in turn, the nodes `seen` having come before them. -/
def checkAttachAfter (a : Arena) (n : NodeId) (seen : List NodeId) :
    ChildList → Except Fault Unit
  | [] => return ()
  | c :: cs =>
    if c.node ∈ seen then .error (.alreadyAttached c.node n)
    else do
      a.checkAttach n c.role c.node
      checkAttachAfter a n (c.node :: seen) cs

/-- May all the entries be attached to `n`, one after the other? A node that occurs a
    second time would by then be a child of `n`. -/
def checkAttachAll (a : Arena) (n : NodeId) (cs : ChildList) : Except Fault Unit :=
  a.checkAttachAfter n [] cs

/-! ### Writing -/

/-- Allocate a root without children. Its id is the size of the arena before. -/
def push (a : Arena) (k : Kind) : Arena := ⟨a.nodes.push { kind := k }⟩

/-- Change the node `n`; without effect if there is no such node. -/
def update (a : Arena) (n : NodeId) (f : Node → Node) : Arena := ⟨a.nodes.modify n f⟩

def setKind (a : Arena) (n : NodeId) (k : Kind) : Arena :=
  a.update n fun d => { d with kind := k }

def setParent (a : Arena) (n : NodeId) (p : Option NodeId) : Arena :=
  a.update n fun d => { d with parent := p }

def setChildren (a : Arena) (n : NodeId) (f : ChildList → ChildList) : Arena :=
  a.update n fun d => { d with children := f d.children }

/-- Attach `c` as the last child of `n`, unchecked. -/
def link (a : Arena) (n : NodeId) (r : RoleId) (c : NodeId) : Arena :=
  (a.setChildren n (· ++ [⟨r, c⟩])).setParent c (some n)

/-- The arena without the nodes from the id `n` on. Nodes below `n` keep their links,
    including any to nodes that are gone. -/
def cut (a : Arena) (n : Nat) : Arena := ⟨a.nodes.take n⟩

/-- Do the nodes below `n` link to nodes below `n` only? -/
def linksStayBelow (a : Arena) (n : Nat) : Bool :=
  (a.nodes.toList.take n).all fun d => d.parent.all (· < n) && d.children.all (·.node < n)

/-- Forget every node from the id `n` on. A node below `n` that links to one of them is a
    fault. -/
def truncate (a : Arena) (n : Nat) : Except Fault Arena :=
  if a.linksStayBelow n then .ok (a.cut n) else .error (.crossingLink n)

/-! ### What look-up sees of a write -/

@[simp] theorem size_empty : empty.size = 0 := rfl

@[simp] theorem size_push (a : Arena) (k : Kind) : (a.push k).size = a.size + 1 := by
  simp [push, size]

@[simp] theorem size_update (a : Arena) (n : NodeId) (f : Node → Node) :
    (a.update n f).size = a.size := by
  simp [update, size]

theorem node?_push (a : Arena) (k : Kind) (m : Nat) :
    (a.push k).node? m = if m = a.size then some { kind := k } else a.node? m := by
  rw [push, node?, Array.getElem?_push]
  rfl

theorem node?_update (a : Arena) (n m : Nat) (f : Node → Node) :
    (a.update n f).node? m = if n = m then (a.node? m).map f else a.node? m := by
  simp [update, node?, Array.getElem?_modify]

theorem node?_cut (a : Arena) (n m : Nat) :
    (a.cut n).node? m = if m < n then a.node? m else none := by
  simp only [cut, node?, Array.take, Array.getElem?_extract, Nat.sub_zero, Nat.zero_add]
  by_cases h : m < a.nodes.size
  · simp only [show m < min n a.nodes.size ↔ m < n by omega]
  · have hnone : a.nodes[m]? = none := Array.getElem?_eq_none (by omega)
    simp [hnone]

end Arena

end SyntaxForest
