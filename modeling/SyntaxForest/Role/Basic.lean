/-
  Roles: the labels under which a node holds its children.

  A role says two things about the children that sit under it: how many there may be
  (`Cardinality`) and of which category they must be (`Slot`). What a program writes
  down when it introduces a role is a `RoleDef`. Introducing it gives the role its
  identity, a `RoleId`; definition and identity together are a `Role`.

  A `RoleId` carries the cardinality and the accepted category along with its index,
  so that child lists, which store nothing but ids, can be checked without a table at
  hand. Only the name has to be looked up (`SyntaxForest.Role.Registry`). Attaching a
  child asks the id, so a test that a slot has of its own counts only where a role is
  asked.
-/
import SyntaxForest.Category

namespace SyntaxForest

/-- How many children a role holds. -/
inductive Cardinality
  /-- At most one child. -/
  | single
  /-- An ordered list of children. -/
  | many
deriving DecidableEq

/-- The cardinality's name in reports. -/
def Cardinality.text : Cardinality → String
  | single => "Single"
  | many => "Many"

/-- What a role is open to. A slot asks for one category of nodes or leaves the category
    open, and it has a test of which categories it takes. A program may bring slots of
    its own. Two slots with the same marker are one slot. -/
structure Slot where
  marker : String
  /-- The category asked for, if the slot asks for one. -/
  category : Option Category
  admits : Category → Bool

namespace Slot

/-- The slot that takes what fits the category asked for, and has no other test. -/
def plain (marker : String) (category : Option Category) : Slot :=
  ⟨marker, category, fun c => c.fits category⟩

/-- The test of the slot is that of its category. -/
def IsPlain (s : Slot) : Prop := ∀ c, s.admits c = c.fits s.category

/-- Keywords and punctuation. -/
def token : Slot := plain "Token" (some .token)
/-- Bare names. -/
def identifier : Slot := plain "Identifier" (some .identifier)
def expression : Slot := plain "Expression" (some .expression)
def statement : Slot := plain "Statement" (some .statement)
/-- Any node at all. -/
def any : Slot := plain "Any" none

/-- The slots of the library. -/
def builtIn : List Slot := [token, identifier, expression, statement, any]

end Slot

/-- The identity of a role, with what has to be known of the role in order to attach a
    child under it. -/
structure RoleId where
  /-- Position in the order of definition. -/
  index : Nat
  cardinality : Cardinality
  /-- The category asked for; `none` leaves the slot open. -/
  accepts : Option Category
deriving DecidableEq

namespace RoleId

/-- Does the role hold a list of children? -/
def isMany (r : RoleId) : Bool := r.cardinality = .many

/-- May a node of category `c` sit under the role? -/
def admits (r : RoleId) (c : Category) : Bool := c.fits r.accepts

/-- Are two ids the id of one role? Only the index counts. -/
def same (r s : RoleId) : Bool := r.index = s.index

/-- Ids are ordered by definition. -/
instance : Ord RoleId where
  compare r s := compare r.index s.index

end RoleId

/-- What a program says when it introduces a role. The name serves messages and dumps;
    two roles may share it. -/
structure RoleDef where
  name : String
  cardinality : Cardinality
  slot : Slot

/-- The id a definition gets as the `index`-th of all definitions. -/
def RoleDef.idAt (d : RoleDef) (index : Nat) : RoleId :=
  ⟨index, d.cardinality, d.slot.category⟩

/-- A definition together with the identity it was given. -/
structure Role extends RoleDef where
  id : RoleId

namespace Role

/-- Does the role hold a list of children, by its definition? -/
def isMany (r : Role) : Bool := r.cardinality = .many

/-- May a node of category `c` sit under the role, by the test of its slot? -/
def admits (r : Role) (c : Category) : Bool := r.slot.admits c

/-- Name and index, for inspection. -/
def inspect (r : Role) : String :=
  "Role(" ++ r.name ++ "#" ++ toString r.id.index ++ ")"

end Role

/-! ### The roles of the built-in grammar -/

namespace RoleId

/-- The leading keyword of a statement. -/
def keyword : RoleId := ⟨0, .single, some .token⟩
/-- The name in a goto, a label or an identifier expression. -/
def identifier : RoleId := ⟨1, .single, some .identifier⟩
/-- The closing semicolon of a statement. -/
def semicolon : RoleId := ⟨2, .single, some .token⟩
/-- The colon of a label. -/
def colon : RoleId := ⟨3, .single, some .token⟩
/-- The opening brace of a block. -/
def lbrace : RoleId := ⟨4, .single, some .token⟩
/-- The closing brace of a block. -/
def rbrace : RoleId := ⟨5, .single, some .token⟩
/-- The operator of a binary expression. -/
def operator : RoleId := ⟨6, .single, some .token⟩
/-- The expression of a statement. -/
def expression : RoleId := ⟨7, .single, some .expression⟩
/-- The left operand. -/
def left : RoleId := ⟨8, .single, some .expression⟩
/-- The right operand. -/
def right : RoleId := ⟨9, .single, some .expression⟩
/-- The statements of a block. -/
def statement : RoleId := ⟨10, .many, some .statement⟩
/-- The pattern inside a named placeholder. -/
def patternChild : RoleId := ⟨11, .single, none⟩
/-- The alternatives of a choice. -/
def alternative : RoleId := ⟨12, .many, none⟩
/-- The second keyword of a goto to a case. -/
def caseKeyword : RoleId := ⟨13, .single, some .token⟩
/-- The second keyword of a goto to the default. -/
def defaultKeyword : RoleId := ⟨14, .single, some .token⟩

/-- Those that nodes of several kinds have, in the order of their definitions. -/
def shared : List RoleId :=
  [keyword, identifier, semicolon, colon, lbrace, rbrace, operator, expression, left, right,
    statement, patternChild, alternative]

/-- All of them, in the order of their definitions. -/
def grammar : List RoleId := shared ++ [caseKeyword, defaultKeyword]

end RoleId

end SyntaxForest
