/-
  Faults: why a call did not do what it was asked to.

  Most faults are refusals. An attachment would put a node where its category is not
  wanted, would give it a second parent, would close a cycle, or treats a role that
  holds one child as one that holds many. The rest are mistakes of the caller about
  which nodes there are: an id beyond the end of the arena, a node of another kind
  than the call is for, a name nobody has bound.

  Two faults belong to neither sort. Walks along links are given as many steps as the
  arena has nodes, and one more; `Fault.endless` reports a walk that needed more, which
  only links that run in a circle can cause. And an arena that is to lose its last nodes
  keeps them if others link to them; `Fault.crossingLink` says so.
-/
import SyntaxForest.Kind
import SyntaxForest.Role.Registry

namespace SyntaxForest

/-- A handle on a node: its position in the order of allocation. -/
abbrev NodeId := Nat

/-- Why a call failed. -/
inductive Fault
  /-- The role does not take nodes of the category found. -/
  | slotMismatch (role : RoleId) (found : Category)
  /-- The child has a parent already. -/
  | alreadyAttached (child parent : NodeId)
  /-- The child is the receiving node or one of its ancestors. -/
  | cycle (parent child : NodeId)
  /-- The role holds a list, the call is for single children. -/
  | notSingleValued (role : RoleId)
  /-- The role holds a single child, the call is for lists. -/
  | notMultiValued (role : RoleId)
  /-- The node to insert before is not a child of the receiving node. -/
  | notAChild (parent anchor : NodeId)
  /-- The node to replace has no parent. -/
  | detached (node : NodeId)
  /-- No node has the id `index`: the arena ends at `size`. -/
  | outOfRange (size index : Nat)
  /-- The call is for nodes of another shape. -/
  | wrongKind (node : NodeId)
  /-- A walk along links did not come to an end. -/
  | endless
  /-- No node was given this name. -/
  | unknownName (name : String)
  /-- A node before the cut links to one behind it. -/
  | crossingLink (cut : Nat)
deriving DecidableEq

/-- A node in messages. -/
def NodeId.text (n : NodeId) : String := "#" ++ toString n

/-- What the fault says to a reader. Roles are named by the registry. -/
def Fault.message (reg : Registry) : Fault → String
  | slotMismatch role found =>
    "role `" ++ reg.name role ++ "` does not accept a " ++ found.text ++ " node"
  | alreadyAttached child parent =>
    "node " ++ NodeId.text child ++ " is already attached to " ++ NodeId.text parent
  | cycle parent child =>
    "attaching " ++ NodeId.text child ++ " under " ++ NodeId.text parent ++
      " would create a cycle"
  | notSingleValued role =>
    "role `" ++ reg.name role ++ "` holds a list of children; use `add_child`"
  | notMultiValued role =>
    "role `" ++ reg.name role ++ "` holds a single child; use `set_child`"
  | notAChild parent anchor =>
    "node " ++ NodeId.text anchor ++ " is not a child of " ++ NodeId.text parent
  | detached node => "node " ++ NodeId.text node ++ " has no parent"
  | outOfRange size index =>
    "index out of bounds: the len is " ++ toString size ++ " but the index is " ++
      toString index
  | wrongKind node => "node " ++ NodeId.text node ++ " has another kind"
  | endless => "links run in a circle"
  | unknownName name => "no node is named " ++ Text.quote name
  | crossingLink cut => "a link leads from a node before " ++ NodeId.text cut ++ " to one behind it"

/-- A result that is settled already, whatever the state is, and leaves it alone. -/
def settled {σ α : Type} (x : Except Fault α) : EStateM Fault σ α := fun s =>
  match x with
  | .ok v => .ok v s
  | .error e => .error e s

end SyntaxForest
