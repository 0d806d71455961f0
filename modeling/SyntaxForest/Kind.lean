/-
  Kinds: what a node is.

  A kind is one of a closed set of shapes together with the payload that is not a
  child node: the word of a token, the name of an identifier, the value of a literal,
  the operator of a binary expression, the group of a placeholder. Everything else a
  node has hangs below it as children.

  Kinds are compared payload and all. Three coarser readings are used elsewhere:

    - `Kind.category`, which decides where a node may be attached;
    - `Kind.tag`, the shape without the payload, which gives a node its name in dumps;
    - `Kind.handler`, the case of a visitor that takes the node, where all placeholders
      share one case.
-/
import SyntaxForest.Category
import SyntaxForest.Text.Quoted

namespace SyntaxForest

/-! ### Payloads -/

/-- The operators of binary expressions. -/
inductive Operator
  | add
  | sub
  | mul
  | div
  | eq
  | notEq
  | lt
  | gt
  | and
  | or
deriving DecidableEq

namespace Operator

def all : List Operator := [add, sub, mul, div, eq, notEq, lt, gt, and, or]

/-- The operator as it is written. -/
def symbol : Operator → String
  | add => "+"
  | sub => "-"
  | mul => "*"
  | div => "/"
  | eq => "=="
  | notEq => "!="
  | lt => "<"
  | gt => ">"
  | and => "&&"
  | or => "||"

/-- The operator written as `s`. -/
def ofSymbol? (s : String) : Option Operator := all.find? (·.symbol = s)

end Operator

/-- Keywords, punctuation and operator signs. -/
inductive Token
  | goto
  | case
  | default
  | semicolon
  | colon
  | lbrace
  | rbrace
  | operator (op : Operator)
deriving DecidableEq

namespace Token

def all : List Token :=
  [goto, case, default, semicolon, colon, lbrace, rbrace] ++ Operator.all.map operator

/-- The token as it is written. -/
def text : Token → String
  | goto => "goto"
  | case => "case"
  | default => "default"
  | semicolon => ";"
  | colon => ":"
  | lbrace => "\x7b"
  | rbrace => "\x7d"
  | operator op => op.symbol

/-- The token written as `s`. -/
def ofText? (s : String) : Option Token := all.find? (·.text = s)

end Token

/-- The values a primitive expression can have. -/
inductive Literal
  | int (value : Int)
  | bool (value : Bool)
  | str (value : String)
  | null
deriving DecidableEq

/-- The literal as it is written. -/
def Literal.text : Literal → String
  | int value => toString value
  | bool true => "true"
  | bool false => "false"
  | str value => Text.quote value
  | null => "null"

/-! ### Shapes -/

/-- The shapes of expressions. -/
inductive ExpressionShape
  | primitive (value : Literal)
  | identifier
  | binary (op : Operator)
deriving DecidableEq

/-- The shapes of statements. -/
inductive StatementShape
  | goto
  | gotoCase
  | gotoDefault
  | label
  | block
  | expression
deriving DecidableEq

/-- The placeholders a pattern can hold. -/
inductive Placeholder
  /-- Stands for any node; a group remembers which. -/
  | any (group : Option String)
  /-- Stands for any node or for none. -/
  | anyOrNull (group : Option String)
  /-- Stands for a node equal to the one its group remembers. -/
  | backreference (group : String)
  /-- Stands for what its inner pattern stands for, and remembers it. -/
  | named (group : String)
  /-- Stands for whatever one of its alternatives stands for. -/
  | choice
deriving DecidableEq

/-- The group a placeholder mentions. -/
def Placeholder.group : Placeholder → Option String
  | any group | anyOrNull group => group
  | backreference group | named group => some group
  | choice => none

/-- What a node is. -/
inductive Kind
  | token (t : Token)
  | identifier (name : String)
  | expression (shape : ExpressionShape)
  | statement (shape : StatementShape)
  | pattern (placeholder : Placeholder)
deriving DecidableEq

/-- The shape of a node without its payload. -/
inductive Tag
  | token
  | identifier
  | primitiveExpression
  | identifierExpression
  | binaryExpression
  | gotoStatement
  | gotoCaseStatement
  | gotoDefaultStatement
  | labelStatement
  | blockStatement
  | expressionStatement
  | anyNode
  | anyNodeOrNull
  | backreference
  | namedNode
  | choice
deriving DecidableEq

/-- The tag's name in dumps. -/
def Tag.name : Tag → String
  | token => "Token"
  | identifier => "Identifier"
  | primitiveExpression => "PrimitiveExpression"
  | identifierExpression => "IdentifierExpression"
  | binaryExpression => "BinaryExpression"
  | gotoStatement => "GotoStatement"
  | gotoCaseStatement => "GotoCaseStatement"
  | gotoDefaultStatement => "GotoDefaultStatement"
  | labelStatement => "LabelStatement"
  | blockStatement => "BlockStatement"
  | expressionStatement => "ExpressionStatement"
  | anyNode => "AnyNode"
  | anyNodeOrNull => "AnyNodeOrNull"
  | backreference => "Backreference"
  | namedNode => "NamedNode"
  | choice => "Choice"

/-- The cases of a visitor. -/
inductive Handler
  | token
  | identifier
  | primitiveExpression
  | identifierExpression
  | binaryExpression
  | gotoStatement
  | gotoCaseStatement
  | gotoDefaultStatement
  | labelStatement
  | blockStatement
  | expressionStatement
  | placeholder
deriving DecidableEq

/-- The case's name in the log of a walk. -/
def Handler.name : Handler → String
  | token => "token"
  | identifier => "identifier"
  | primitiveExpression => "primitive_expression"
  | identifierExpression => "identifier_expression"
  | binaryExpression => "binary_expression"
  | gotoStatement => "goto_statement"
  | gotoCaseStatement => "goto_case_statement"
  | gotoDefaultStatement => "goto_default_statement"
  | labelStatement => "label_statement"
  | blockStatement => "block_statement"
  | expressionStatement => "expression_statement"
  | placeholder => "pattern_placeholder"

namespace Kind

/-- The coarse sort of the kind. -/
def category : Kind → Category
  | token _ => .token
  | identifier _ => .identifier
  | expression _ => .expression
  | statement _ => .statement
  | pattern _ => .pattern

/-- The shape without the payload. -/
def tag : Kind → Tag
  | token _ => .token
  | identifier _ => .identifier
  | expression (.primitive _) => .primitiveExpression
  | expression .identifier => .identifierExpression
  | expression (.binary _) => .binaryExpression
  | statement .goto => .gotoStatement
  | statement .gotoCase => .gotoCaseStatement
  | statement .gotoDefault => .gotoDefaultStatement
  | statement .label => .labelStatement
  | statement .block => .blockStatement
  | statement .expression => .expressionStatement
  | pattern (.any _) => .anyNode
  | pattern (.anyOrNull _) => .anyNodeOrNull
  | pattern (.backreference _) => .backreference
  | pattern (.named _) => .namedNode
  | pattern .choice => .choice

/-- The visitor case that takes a node of the kind. -/
def handler : Kind → Handler
  | token _ => .token
  | identifier _ => .identifier
  | expression (.primitive _) => .primitiveExpression
  | expression .identifier => .identifierExpression
  | expression (.binary _) => .binaryExpression
  | statement .goto => .gotoStatement
  | statement .gotoCase => .gotoCaseStatement
  | statement .gotoDefault => .gotoDefaultStatement
  | statement .label => .labelStatement
  | statement .block => .blockStatement
  | statement .expression => .expressionStatement
  | pattern _ => .placeholder

def isToken (k : Kind) : Bool := k.category = .token

def isPattern (k : Kind) : Bool := k.category = .pattern

/-! ### Payloads -/

def token? : Kind → Option Token
  | token t => some t
  | _ => none

/-- The name that an identifier is. -/
def name? : Kind → Option String
  | identifier name => some name
  | _ => none

/-- The value that a literal has. -/
def literal? : Kind → Option Literal
  | expression (.primitive value) => some value
  | _ => none

/-- The operator of a binary expression. -/
def operator? : Kind → Option Operator
  | expression (.binary op) => some op
  | _ => none

def placeholder? : Kind → Option Placeholder
  | pattern p => some p
  | _ => none

end Kind

end SyntaxForest
