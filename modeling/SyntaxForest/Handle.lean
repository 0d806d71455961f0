/-
  Handles.

  An id tells which node is meant, and nothing about it. A handle is an id together with
  what is known of the kind of its node, its view. There is one view for every case of a
  visitor, and there are two wider ones, for all expressions and for all statements.

  A handle is had in three ways. A cast asks the node whether it fits the view. A
  constructor knows what it has made. And a visitor is called in the case that is for the
  kind of the node (`Arena.accept`).

  A handle has no part in the arena: it is a copy of an id, and what it says of the node
  was true when it was had. That this stays true is shown in `Proofs.Handles`.
-/
import SyntaxForest.Arena.Basic

namespace SyntaxForest

/-- What a handle says of its node. -/
inductive View
  | token
  | identifier
  | expression
  | primitiveExpression
  | identifierExpression
  | binaryExpression
  | statement
  | gotoStatement
  | gotoCaseStatement
  | gotoDefaultStatement
  | labelStatement
  | blockStatement
  | expressionStatement
  | placeholder
deriving DecidableEq

/-- Is a node of the kind what the view says? -/
def View.fits : View → Kind → Bool
  | token, .token _ => true
  | identifier, .identifier _ => true
  | expression, .expression _ => true
  | primitiveExpression, .expression (.primitive _) => true
  | identifierExpression, .expression .identifier => true
  | binaryExpression, .expression (.binary _) => true
  | statement, .statement _ => true
  | gotoStatement, .statement .goto => true
  | gotoCaseStatement, .statement .gotoCase => true
  | gotoDefaultStatement, .statement .gotoDefault => true
  | labelStatement, .statement .label => true
  | blockStatement, .statement .block => true
  | expressionStatement, .statement .expression => true
  | placeholder, .pattern _ => true
  | _, _ => false

/-- The view in the handle that the case of a visitor is called with. -/
def Handler.view : Handler → View
  | token => .token
  | identifier => .identifier
  | primitiveExpression => .primitiveExpression
  | identifierExpression => .identifierExpression
  | binaryExpression => .binaryExpression
  | gotoStatement => .gotoStatement
  | gotoCaseStatement => .gotoCaseStatement
  | gotoDefaultStatement => .gotoDefaultStatement
  | labelStatement => .labelStatement
  | blockStatement => .blockStatement
  | expressionStatement => .expressionStatement
  | placeholder => .placeholder

namespace Arena

/-- Have a handle on `n` if the view fits. -/
def cast (a : Arena) (view : View) (n : NodeId) : Except Fault (Option NodeId) := do
  return if view.fits (← a.kind n) then some n else none

end Arena

end SyntaxForest
