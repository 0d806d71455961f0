/-
  Setters that know the grammar.

  A general edit puts a child at the end of the list, or where its predecessor was. The
  setters of this module know where a part belongs: a label goes before the semicolon
  or the colon, an expression before the semicolon, a statement before the closing
  brace. However often a slot is emptied and filled again, the children stay in the
  order of the grammar.

  Each setter is meant for nodes of one kind, which its caller has a handle on (`Handle`).
  The setters do not ask again. Given another node, one that takes a child does what the
  checked edits allow. One that takes a text overwrites or attaches without a check, and
  `setName` allocates before it looks at the node at all: what it makes of an id that is
  not a node yet is shown in `Proofs.Reachable`.
-/
import SyntaxForest.Arena.Edit
import SyntaxForest.Parts

namespace SyntaxForest.Edit

/-- Name the node `n`: a fresh identifier takes the slot, before `anchor` if the slot
    was empty. The empty name empties the slot. -/
def setIdentifier (n : NodeId) (name : String) (anchor : Option NodeId) : Edit Unit :=
  if name.isEmpty then do
    let _ ← takeChild n .identifier
  else do
    let x ← alloc (.identifier name)
    let _ ← putChild n .identifier x anchor

/-- Set or clear a label, before the token under `anchor` if there was none. -/
def setLabelBefore (anchor : RoleId) (n : NodeId) (label : String) : Edit Unit := do
  setIdentifier n label (← look (·.token? n anchor))

/-- Set or clear the label of a goto. -/
def setGotoLabel (n : NodeId) (label : String) : Edit Unit := setLabelBefore .semicolon n label

/-- Set or clear the label of a label statement. -/
def setLabel (n : NodeId) (label : String) : Edit Unit := setLabelBefore .colon n label

/-- Set or clear the name of an identifier expression. -/
def setName (n : NodeId) (name : String) : Edit Unit := setIdentifier n name none

/-- Rename an identifier. -/
def rename (n : NodeId) (name : String) : Edit Unit := do
  let _ ← look (·.kind n)
  write (·.setKind n (.identifier name))

/-- Set or clear the expression of an expression statement: before the semicolon if
    the slot is empty. Returns the expression that was there. -/
def setExpression (n : NodeId) (child : Option NodeId) : Edit (Option NodeId) := do
  let anchor ← look (·.token? n .semicolon)
  let current ← look (·.child? n .expression)
  match child, anchor, current with
  | some c, some s, none => insertChildBefore n s .expression c
  | _, _, _ => setChild n .expression child

/-- Set or clear the expression that a goto to a case aims at, which is where an
    expression statement has its own. -/
def setLabelExpression (n : NodeId) (child : Option NodeId) : Edit (Option NodeId) :=
  setExpression n child

/-- Append a statement to a block, before the closing brace. -/
def addStatement (n : NodeId) (c : NodeId) : Edit Unit := do
  match ← look (·.token? n .rbrace) with
  | some brace =>
    let _ ← insertChildBefore n brace .statement c
  | none => addChild n .statement c

end SyntaxForest.Edit
