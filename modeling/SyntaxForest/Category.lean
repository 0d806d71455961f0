/-
  Categories of nodes.

  A node's category is the coarsest thing there is to say about it: is it a token, an
  identifier, an expression, a statement or a pattern placeholder? Roles choose the
  children they take by category alone, so two nodes of one category are
  interchangeable as far as attachment is concerned.

  Pattern placeholders stand for nodes that are not there yet. They are therefore
  welcome under every role, whatever category the role asks for: see
  `Category.fits`.
-/

namespace SyntaxForest

/-- The coarse sort of a node. -/
inductive Category
  | token
  | identifier
  | expression
  | statement
  | pattern
deriving DecidableEq

namespace Category

/-- Every category, in the order in which reports list them. -/
def all : List Category := [token, identifier, expression, statement, pattern]

/-- The category's name in messages. -/
def text : Category → String
  | token => "token"
  | identifier => "identifier"
  | expression => "expression"
  | statement => "statement"
  | pattern => "pattern"

/-- Does a node of category `c` fit where `accepts` is asked for? `none` asks for
    nothing in particular, and a placeholder fits anywhere. -/
def fits (c : Category) (accepts : Option Category) : Bool :=
  match accepts with
  | none => true
  | some expected => expected = c || c = pattern

@[simp] theorem fits_none (c : Category) : c.fits none = true := rfl

@[simp] theorem pattern_fits (accepts : Option Category) : pattern.fits accepts = true := by
  cases accepts <;> simp [fits]

end Category

end SyntaxForest
