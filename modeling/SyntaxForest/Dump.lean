/-
  Dumps: a subtree on one line.

  A dump is an s-expression. A token is its text in single quotes, an identifier is its
  name, and every other node is a pair of parentheses around its heading and the dumps
  of its children:

    (GotoStatement 'goto' L1 ';')

  The heading is the node's tag, followed by the value for a literal and by `$` and the
  group for a placeholder that has one. Two options change what is shown. With roles
  shown, each child is preceded by its role and an equals sign; with tokens hidden,
  children that are tokens are left out. The node a dump starts from is always shown.
-/
import SyntaxForest.Arena.Basic

namespace SyntaxForest

/-- What a dump shows. -/
structure DumpOptions where
  showRoles : Bool := false
  showTokens : Bool := true
deriving DecidableEq

namespace Kind

/-- The whole dump of a node that is written without parentheses. -/
def leafText? : Kind → Option String
  | token t => some ("'" ++ t.text ++ "'")
  | identifier name => some name
  | _ => none

/-- What follows the opening parenthesis. -/
def heading (k : Kind) : String :=
  match k with
  | expression (.primitive value) => k.tag.name ++ " " ++ value.text
  | pattern p =>
    match p.group with
    | some group => k.tag.name ++ " $" ++ group
    | none => k.tag.name
  | _ => k.tag.name

end Kind

namespace Arena

/-- The dump of the subtree at `n`, at most `fuel` levels down. -/
def dumpBelow (reg : Registry) (options : DumpOptions) (a : Arena) :
    Nat → NodeId → Except Fault String
  | 0, _ => .error .endless
  | fuel + 1, n => do
    let d ← a.node n
    match d.kind.leafText? with
    | some text => return text
    | none =>
      let shown ← d.children.mapM fun c => do
        if !options.showTokens && (← a.kind c.node).isToken then return ""
        else
          let text ← dumpBelow reg options a fuel c.node
          return " " ++ (if options.showRoles then reg.name c.role ++ "=" else "") ++ text
      return "(" ++ d.kind.heading ++ String.join shown ++ ")"

/-- The dump of the subtree at `n`. -/
def dump (a : Arena) (reg : Registry) (options : DumpOptions) (n : NodeId) :
    Except Fault String :=
  dumpBelow reg options a (a.size + 1) n

end Arena

end SyntaxForest
