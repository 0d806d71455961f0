/-
  Searching for matches.

  Each candidate is matched on its own, with nothing captured before; only the warnings
  are gathered over the whole search.
-/
import SyntaxForest.Arena.Walk
import SyntaxForest.Matching.Matcher

namespace SyntaxForest

/-- A part of a search. A failure keeps the warnings given before it. -/
abbrev Search := EStateM Fault (List DepthWarning)

namespace Search

/-- Match with nothing captured before. The result is what the match captured, or
    `none` if there is no match. -/
def matches? (pattern : Arena) (p : NodeId) (candidate : Arena) (c : NodeId) :
    Search (Option Captures) := fun warnings =>
  match Matching.doMatch pattern p candidate c defaultMaxDepth ⟨{}, warnings⟩ with
  | .ok matched run => .ok (if matched then some run.captures else none) run.warnings
  | .error e run => .error e run.warnings

/-- Match each of the candidates, and keep those that match. -/
def matchesAmong (pattern : Arena) (p : NodeId) (candidate : Arena) :
    List NodeId → Search (List (NodeId × Captures))
  | [] => return []
  | c :: cs => do
    match ← matches? pattern p candidate c with
    | some m =>
      let rest ← matchesAmong pattern p candidate cs
      return (c, m) :: rest
    | none => matchesAmong pattern p candidate cs

/-- All matches at and below `root`, in pre-order, each with its own captures. -/
def findMatches (pattern : Arena) (p : NodeId) (candidate : Arena) (root : NodeId) :
    Search (List (NodeId × Captures)) := do
  let candidates ← settled (candidate.descendants root)
  matchesAmong pattern p candidate candidates

end Search

end SyntaxForest
