/-
  The named parts of a node.

  What a node of a given shape consists of is read off its child list, role by role:
  a goto has its keyword, its label and its semicolon, a block its braces and its
  statements. A part that should be a token counts only if the child in that slot is
  one; likewise a name is read only from an identifier. In a pattern a placeholder can
  sit in either slot, and then the part is absent.

  `Arena.parts` collects the parts of a node according to its kind.
-/
import SyntaxForest.Arena.Basic

namespace SyntaxForest

/-- The parts of a node, by its shape. Nodes are absent when their slot is empty or
    holds something else. -/
inductive Parts
  | token (text : String)
  | identifier (name : String)
  | primitive (value : Literal)
  | identifierExpression (identifier : Option NodeId) (name : Option String)
  | binary (op : Operator) (operatorToken left right : Option NodeId)
  | goto (gotoToken : Option NodeId) (label : Option String) (semicolonToken : Option NodeId)
  | gotoCase (gotoToken caseToken labelExpression semicolonToken : Option NodeId)
  | gotoDefault (gotoToken defaultToken semicolonToken : Option NodeId)
  | label (label : Option String) (colonToken : Option NodeId)
  | block (statements : List NodeId) (lbraceToken rbraceToken : Option NodeId)
  | expressionStatement (expression semicolonToken : Option NodeId)
  | placeholder (group : Option String) (child : Option NodeId) (alternatives : List NodeId)
deriving DecidableEq

namespace Arena

/-- The child under `r`, if its kind passes the test. -/
def childIf? (a : Arena) (n : NodeId) (r : RoleId) (test : Kind → Bool) :
    Except Fault (Option NodeId) := do
  match ← a.child? n r with
  | none => return none
  | some c => return if test (← a.kind c) then some c else none

/-- The token under `r`. -/
def token? (a : Arena) (n : NodeId) (r : RoleId) : Except Fault (Option NodeId) :=
  a.childIf? n r Kind.isToken

/-- The identifier of a node. -/
def identifier? (a : Arena) (n : NodeId) : Except Fault (Option NodeId) :=
  a.childIf? n .identifier fun k => k.category = .identifier

/-- The name of a goto, a label or an identifier expression. -/
def name? (a : Arena) (n : NodeId) : Except Fault (Option String) := do
  match ← a.child? n .identifier with
  | none => return none
  | some c =>
    match ← a.kind c with
    | .identifier name => return some name
    | _ => return none

/-! What a node has besides its links is in its kind. Who asks for it has to know the
kind: asking any other node is a fault. -/

/-- The part of its kind that the node is asked for. -/
def payload {α : Type} (a : Arena) (part : Kind → Option α) (n : NodeId) : Except Fault α := do
  match part (← a.kind n) with
  | some v => return v
  | none => .error (.wrongKind n)

def tokenKind (a : Arena) (n : NodeId) : Except Fault Token := a.payload Kind.token? n

/-- The name that an identifier is. -/
def identifierName (a : Arena) (n : NodeId) : Except Fault String := a.payload Kind.name? n

/-- The value that a literal has. -/
def literal (a : Arena) (n : NodeId) : Except Fault Literal := a.payload Kind.literal? n

/-- The operator of a binary expression. -/
def operator (a : Arena) (n : NodeId) : Except Fault Operator := a.payload Kind.operator? n

def placeholder (a : Arena) (n : NodeId) : Except Fault Placeholder :=
  a.payload Kind.placeholder? n

/-- The expression of a statement. -/
def expression? (a : Arena) (n : NodeId) : Except Fault (Option NodeId) :=
  a.child? n .expression

/-- The statements of a block. -/
def statements (a : Arena) (n : NodeId) : Except Fault (List NodeId) :=
  a.childrenUnder n .statement

/-- The parts of a node, according to its kind. -/
def parts (a : Arena) (n : NodeId) : Except Fault Parts := do
  match ← a.kind n with
  | .token _ => return .token (← a.tokenKind n).text
  | .identifier _ => return .identifier (← a.identifierName n)
  | .expression (.primitive _) => return .primitive (← a.literal n)
  | .expression .identifier =>
    return .identifierExpression (← a.identifier? n) (← a.name? n)
  | .expression (.binary _) =>
    return .binary (← a.operator n) (← a.token? n .operator) (← a.child? n .left)
      (← a.child? n .right)
  | .statement .goto =>
    return .goto (← a.token? n .keyword) (← a.name? n) (← a.token? n .semicolon)
  | .statement .gotoCase =>
    return .gotoCase (← a.token? n .keyword) (← a.token? n .caseKeyword)
      (← a.expression? n) (← a.token? n .semicolon)
  | .statement .gotoDefault =>
    return .gotoDefault (← a.token? n .keyword) (← a.token? n .defaultKeyword)
      (← a.token? n .semicolon)
  | .statement .label =>
    return .label (← a.name? n) (← a.token? n .colon)
  | .statement .block =>
    return .block (← a.statements n) (← a.token? n .lbrace) (← a.token? n .rbrace)
  | .statement .expression =>
    return .expressionStatement (← a.expression? n) (← a.token? n .semicolon)
  | .pattern _ =>
    return .placeholder (← a.placeholder n).group (← a.child? n .patternChild)
      (← a.childrenUnder n .alternative)

end Arena

end SyntaxForest
