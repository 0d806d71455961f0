/-
  Constructors.

  A constructor makes one node with the tokens that belong to it, and attaches the
  children it is given. Children stand in the order of the grammar; ids are given in
  the order in which the constructor works, which is a different one where a part is
  added between two others.

  A constructor that takes several children checks them all before it attaches the
  first, so that a refusal leaves none of them adopted. What the constructor has
  allocated by then stays in the arena, linked to nothing that was there before.
-/
import SyntaxForest.Setters

namespace SyntaxForest.Edit

/-! ### Leaves -/

def newToken (t : Token) : Edit NodeId := alloc (.token t)

def newIdentifier (name : String) : Edit NodeId := alloc (.identifier name)

def newLiteral (value : Literal) : Edit NodeId := alloc (.expression (.primitive value))

/-- Append a new token to a node. -/
def appendToken (n : NodeId) (r : RoleId) (t : Token) : Edit Unit := do
  let x ← newToken t
  link n r x

/-! ### Expressions -/

/-- The expression that consists of a name. -/
def newIdentifierExpression (name : String) : Edit NodeId := do
  let n ← alloc (.expression .identifier)
  let x ← newIdentifier name
  link n .identifier x
  return n

def newBinary (left : NodeId) (op : Operator) (right : NodeId) : Edit NodeId := do
  let n ← alloc (.expression (.binary op))
  look (·.checkAttachAll n [⟨.left, left⟩, ⟨.right, right⟩])
  link n .left left
  appendToken n .operator (.operator op)
  link n .right right
  return n

/-! ### Statements -/

/-- The statement `goto label;`, without a label if it is empty. -/
def newGoto (label : String) : Edit NodeId := do
  let n ← alloc (.statement .goto)
  appendToken n .keyword .goto
  appendToken n .semicolon .semicolon
  setGotoLabel n label
  return n

/-- The statement `goto case expression;`. -/
def newGotoCase (expression : NodeId) : Edit NodeId := do
  let n ← alloc (.statement .gotoCase)
  appendToken n .keyword .goto
  appendToken n .caseKeyword .case
  let _ ← setChild n .expression (some expression)
  appendToken n .semicolon .semicolon
  return n

/-- The statement `goto default;`. -/
def newGotoDefault : Edit NodeId := do
  let n ← alloc (.statement .gotoDefault)
  appendToken n .keyword .goto
  appendToken n .defaultKeyword .default
  appendToken n .semicolon .semicolon
  return n

/-- The statement `label:`, without a label if it is empty. -/
def newLabel (label : String) : Edit NodeId := do
  let n ← alloc (.statement .label)
  appendToken n .colon .colon
  setLabel n label
  return n

/-- An empty block. -/
def newBlock : Edit NodeId := do
  let n ← alloc (.statement .block)
  appendToken n .lbrace .lbrace
  appendToken n .rbrace .rbrace
  return n

/-- A block of the given statements. -/
def newBlockOf (statements : List NodeId) : Edit NodeId := do
  let n ← newBlock
  look (·.checkAttachAll n (statements.map (⟨.statement, ·⟩)))
  statements.forM (addStatement n)
  return n

/-- The statement `expression;`. -/
def newExpressionStatement (expression : NodeId) : Edit NodeId := do
  let n ← alloc (.statement .expression)
  let _ ← setChild n .expression (some expression)
  appendToken n .semicolon .semicolon
  return n

/-! ### Placeholders -/

def newAny (group : Option String) : Edit NodeId := alloc (.pattern (.any group))

def newAnyOrNull (group : Option String) : Edit NodeId := alloc (.pattern (.anyOrNull group))

def newBackreference (group : String) : Edit NodeId :=
  alloc (.pattern (.backreference group))

/-- A placeholder that remembers what its inner pattern stands for. -/
def newNamed (group : String) (inner : NodeId) : Edit NodeId := do
  let n ← alloc (.pattern (.named group))
  let _ ← setChild n .patternChild (some inner)
  return n

/-- A choice between the given patterns. -/
def newChoice (alternatives : List NodeId) : Edit NodeId := do
  let n ← alloc (.pattern .choice)
  look (·.checkAttachAll n (alternatives.map (⟨.alternative, ·⟩)))
  alternatives.forM (link n .alternative)
  return n

end SyntaxForest.Edit
