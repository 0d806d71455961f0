/-
  Sketches: trees written down as terms.

  A sketch describes a tree to be built. Building it works from the leaves to the root
  and from left to right: the subtrees of a node come first, then the node is made by
  its constructor. A sketch can also refer to a node that exists already, by its id or
  by a name, and can name the node that a part of it becomes.

  Building ends at the first fault. Nodes made and names given until then remain, as
  they do for every edit: the state of the work is a `Draft`, an arena with the names
  given so far.

  `Edit.nest` builds towers. It wraps a node again and again in the same construction.
-/
import SyntaxForest.Construct

namespace SyntaxForest

/-! ### Names for nodes -/

/-- Names given to nodes, the latest first. -/
abbrev Names := List (String × NodeId)

/-- Give a name; an older node of that name loses it. -/
def Names.bind (names : Names) (name : String) (n : NodeId) : Names := (name, n) :: names

/-- The node with the given name. -/
def Names.get (names : Names) (name : String) : Except Fault NodeId :=
  match names.lookup name with
  | some n => .ok n
  | none => .error (.unknownName name)

/-- A reference to a node. -/
inductive NodeRef
  | id (n : NodeId)
  | name (name : String)
deriving DecidableEq

/-- The node referred to. An id stands for itself, whether there is such a node or
    not. -/
def NodeRef.resolve (names : Names) : NodeRef → Except Fault NodeId
  | id n => .ok n
  | name s => names.get s

/-! ### Sketches -/

/-- A tree to be built. -/
inductive Sketch
  /-- A node that exists already. -/
  | existing (ref : NodeRef)
  /-- A part whose root gets a name. -/
  | tagged (name : String) (part : Sketch)
  | token (t : Token)
  | identifier (name : String)
  | literal (value : Literal)
  | identifierExpression (name : String)
  | binary (left : Sketch) (op : Operator) (right : Sketch)
  | goto (text : String)
  | gotoCase (expression : Sketch)
  | gotoDefault
  | label (text : String)
  /-- A goto with the given node, usually a placeholder, for its label. -/
  | gotoPattern (inner : Sketch)
  /-- A label statement with the given node for its label. -/
  | labelPattern (inner : Sketch)
  | block (statements : List Sketch)
  | expressionStatement (expression : Sketch)
  | any (group : Option String)
  | anyOrNull (group : Option String)
  | backreference (group : String)
  | named (group : String) (inner : Sketch)
  | choice (alternatives : List Sketch)

/-- An arena in the making, with the names given to its nodes. -/
structure Draft where
  arena : Arena
  names : Names

/-- A step of work on a draft. A failure keeps what was done before it. -/
abbrev Drafting := EStateM Fault Draft

namespace Drafting

/-- An edit of the draft's arena. -/
def edit {α : Type} (e : Edit α) : Drafting α := fun d =>
  match e d.arena with
  | .ok v a => .ok v { d with arena := a }
  | .error f a => .error f { d with arena := a }

/-- The node referred to. -/
def resolve (ref : NodeRef) : Drafting NodeId := fun d =>
  settled (ref.resolve d.names) d

/-- Give a name to a node. -/
def tag (name : String) (n : NodeId) : Drafting Unit := fun d =>
  .ok () { d with names := d.names.bind name n }

end Drafting

open Drafting in
/-- Put `x` into the identifier slot of the statement `n`. -/
def Sketch.withIdentifier (n x : NodeId) : Drafting NodeId := do
  let _ ← edit (Edit.setChild n .identifier (some x))
  return n

open Drafting in
mutual

/-- Build a sketch. The result is the root. -/
def Sketch.build : Sketch → Drafting NodeId
  | .existing ref => resolve ref
  | .tagged name part => do
    let n ← part.build
    tag name n
    return n
  | .token t => edit (Edit.newToken t)
  | .identifier name => edit (Edit.newIdentifier name)
  | .literal value => edit (Edit.newLiteral value)
  | .identifierExpression name => edit (Edit.newIdentifierExpression name)
  | .binary left op right => do
    let l ← left.build
    let r ← right.build
    edit (Edit.newBinary l op r)
  | .goto text => edit (Edit.newGoto text)
  | .gotoCase expression => do
    let x ← expression.build
    edit (Edit.newGotoCase x)
  | .gotoDefault => edit Edit.newGotoDefault
  | .label text => edit (Edit.newLabel text)
  | .gotoPattern inner => do
    let x ← inner.build
    let n ← edit (Edit.newGoto "")
    Sketch.withIdentifier n x
  | .labelPattern inner => do
    let x ← inner.build
    let n ← edit (Edit.newLabel "")
    Sketch.withIdentifier n x
  | .block statements => do
    let xs ← Sketch.buildAll statements
    edit (Edit.newBlockOf xs)
  | .expressionStatement expression => do
    let x ← expression.build
    edit (Edit.newExpressionStatement x)
  | .any group => edit (Edit.newAny group)
  | .anyOrNull group => edit (Edit.newAnyOrNull group)
  | .backreference group => edit (Edit.newBackreference group)
  | .named group inner => do
    let x ← inner.build
    edit (Edit.newNamed group x)
  | .choice alternatives => do
    let xs ← Sketch.buildAll alternatives
    edit (Edit.newChoice xs)

/-- Build several sketches, from left to right. -/
def Sketch.buildAll : List Sketch → Drafting (List NodeId)
  | [] => return []
  | s :: rest => do
    let n ← s.build
    let ns ← Sketch.buildAll rest
    return n :: ns

end

/-! ### Towers -/

/-- A construction around a single node. -/
inductive Wrapper
  /-- A block with the node as its only statement. -/
  | block
  /-- The node plus a number. -/
  | binaryLeft
  /-- A number minus the node. -/
  | binaryRight
  /-- A named placeholder around the node; the level is part of the group's name. -/
  | named (group : String)
  /-- A choice with the node as its only alternative. -/
  | choice
deriving DecidableEq

namespace Edit

/-- Wrap a node once, for the given level of the tower. -/
def wrap (wrapper : Wrapper) (n : NodeId) (level : Nat) : Edit NodeId :=
  match wrapper with
  | .block => newBlockOf [n]
  | .binaryLeft => do
    let x ← newLiteral (.int level)
    newBinary n .add x
  | .binaryRight => do
    let x ← newLiteral (.int level)
    newBinary x .sub n
  | .named group => newNamed (group ++ toString level) n
  | .choice => newChoice [n]

/-- Wrap a node `count` times. -/
def nest (wrapper : Wrapper) (count : Nat) (n : NodeId) : Edit NodeId :=
  (List.range count).foldlM (wrap wrapper) n

end Edit

end SyntaxForest
