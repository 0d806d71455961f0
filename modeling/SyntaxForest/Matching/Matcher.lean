/-
  The matcher.

  A pattern is a tree like any other, with placeholders in it. Matching walks down the
  pattern and the candidate together. Where the pattern has an ordinary node the
  candidate must have a node of the same kind, and the two must match role by role in
  the slots that carry meaning (`Kind.comparedRoles`); keywords and punctuation follow
  from the kind and are not compared. Where the pattern has a placeholder, the
  placeholder decides. An empty slot of the candidate is matched too: most patterns do
  not match it, a placeholder for "any node or none" does.

  What a run of the matcher carries along is a `Run`: the captures so far and the
  warnings given. A run is a state with failures that keep the state. Failures come from
  ids beyond the end of an arena, and from captures whose private arena is not in order.

  Patterns may be deep, so the number of levels to go down is limited. A pattern node
  beyond the limit is not entered: it does not match, and a warning says so. The limit
  is what the recursion runs on.
-/
import SyntaxForest.Arena.Compare
import SyntaxForest.Matching.Captures

namespace SyntaxForest

/-- A pattern node that was not entered because it is too deep. -/
structure DepthWarning where
  maxDepth : Nat
  pattern : NodeId
deriving DecidableEq

/-- What the warning says to a reader. -/
def DepthWarning.message (w : DepthWarning) : String :=
  "match depth exceeded max_depth=" ++ toString w.maxDepth ++ " pattern=" ++
    NodeId.text w.pattern

/-- What a run of the matcher has gathered so far. -/
structure Run where
  captures : Captures := {}
  warnings : List DepthWarning := []
deriving DecidableEq

/-- A part of a run. A failure keeps what was gathered before it. -/
abbrev Matching := EStateM Fault Run

/-- How deep a pattern may be unless the caller says otherwise. -/
def defaultMaxDepth : Nat := 1000

/-- The slots of a node that a match compares, in the order of the grammar. -/
def Kind.comparedRoles : Kind → List RoleId
  | token _ | identifier _ | pattern _ => []
  | expression (.primitive _) => []
  | expression .identifier => [.identifier]
  | expression (.binary _) => [.left, .right]
  | statement .goto | statement .label => [.identifier]
  | statement .gotoCase | statement .expression => [.expression]
  | statement .gotoDefault => []
  | statement .block => [.statement]

namespace Matching

/-- Record that a pattern node is too deep. -/
def warn (maxDepth : Nat) (p : NodeId) : Matching Unit := fun run =>
  .ok () { run with warnings := run.warnings ++ [⟨maxDepth, p⟩] }

/-- What a group remembers. -/
def binding? (group : String) : Matching (Option Binding) := fun run =>
  .ok (run.captures.find? group) run

/-- The present moment of the captures. -/
def checkpoint : Matching Checkpoint := fun run => .ok run.captures.checkpoint run

/-- Go back to an earlier moment of the captures. Warnings stay. -/
def restore (cp : Checkpoint) : Matching Unit := fun run =>
  match run.captures.restore cp with
  | .ok () m => .ok () { run with captures := m }
  | .error e m => .error e { run with captures := m }

/-- Bind a group that is not bound yet, with a copy of the subtree at `c`. -/
def capture (candidate : Arena) (group : String) (c : NodeId) : Matching Unit := fun run =>
  match Edit.importFrom candidate c run.captures.arena with
  | .ok copy a => .ok () { run with captures := run.captures.record ⟨group, c, copy⟩ a }
  | .error e a => .error e { run with captures := { run.captures with arena := a } }

/-- Is the subtree at `c` what the binding remembers? -/
def agrees (candidate : Arena) (b : Binding) (c : NodeId) : Matching Bool := fun run =>
  settled (run.captures.arena.structurallyEqual b.copy candidate c) run

/-- Bind a group to `c`; if the group is bound already, `c` has to agree with it. -/
def bind (candidate : Arena) (group : String) (c : NodeId) : Matching Bool := do
  match ← binding? group with
  | some b => agrees candidate b c
  | none =>
    capture candidate group c
    return true

/-- Bind the group to `c` if there is a group. -/
def bindOptional (candidate : Arena) (group : Option String) (c : NodeId) : Matching Bool :=
  match group with
  | some g => bind candidate g c
  | none => return true

/-- Read one of the arenas. -/
def ask {α : Type} (x : Except Fault α) : Matching α := settled x

/-! ### One level of a match

The functions of this section match a pattern node, given the way `enter` to match the
nodes below it, whatever else `enter` may keep track of. -/

section Level

variable {m : Type → Type} [Monad m] [MonadLiftT Matching m] (pattern candidate : Arena)
  (enter : NodeId → Option NodeId → m Bool)

/-- Match the children under a role. An empty slot in the pattern stands for an empty
    slot; only an absent name stands for any name. -/
def matchRole (p c : NodeId) (r : RoleId) : m Bool := do
  match r.cardinality with
  | .single =>
    let inPattern ← ask (pattern.child? p r)
    let inCandidate ← ask (candidate.child? c r)
    match inPattern, inCandidate with
    | none, none => return true
    | none, some _ => return decide (r = .identifier)
    | some p', c' => enter p' c'
  | .many =>
    let inPattern ← ask (pattern.childrenUnder p r)
    let inCandidate ← ask (candidate.childrenUnder c r)
    if inPattern.length = inCandidate.length then
      (inPattern.zip inCandidate).allM fun (p', c') => enter p' (some c')
    else return false

/-- Match an ordinary node of the given kind. -/
def matchConcrete (p : NodeId) (k : Kind) (c : NodeId) : m Bool := do
  if (← ask (candidate.kind c)) = k then
    k.comparedRoles.allM (matchRole pattern candidate enter p c)
  else return false

/-- Try alternatives in turn, each from where the captures stood before it, until one
    matches. -/
def tryEach (c : Option NodeId) : List NodeId → m Bool
  | [] => return false
  | p :: ps => do
    let cp ← checkpoint
    if ← enter p c then return true
    else
      restore cp
      tryEach c ps

/-- Match a placeholder. -/
def matchPlaceholder (p : NodeId) : Placeholder → Option NodeId → m Bool
  | .any _, none => return false
  | .any group, some c => bindOptional candidate group c
  | .anyOrNull _, none => return true
  | .anyOrNull group, some c => bindOptional candidate group c
  | .backreference group, c => do
    match ← binding? group, c with
    | some b, some c => agrees candidate b c
    | _, _ => return false
  | .named group, c => do
    match ← ask (pattern.child? p .patternChild), c with
    | some inner, some c =>
      if ← enter inner (some c) then bind candidate group c else return false
    | _, _ => return false
  | .choice, c => do
    let alternatives ← ask (pattern.childrenUnder p .alternative)
    tryEach enter c alternatives

/-- Match a pattern node with a candidate, which may be absent. -/
def matchLevel (p : NodeId) (c : Option NodeId) : m Bool := do
  match ← ask (pattern.kind p), c with
  | .pattern placeholder, c => matchPlaceholder pattern candidate enter p placeholder c
  | _, none => return false
  | k, some c => matchConcrete pattern candidate enter p k c

end Level

/-- Match a pattern node with `depth` levels left. -/
def matchNode (pattern candidate : Arena) (maxDepth : Nat) :
    Nat → NodeId → Option NodeId → Matching Bool
  | 0, p, _ => do
    warn maxDepth p
    return false
  | depth + 1, p, c =>
    matchLevel pattern candidate (matchNode pattern candidate maxDepth depth) p c

/-- Match the pattern at `p` with the candidate at `c`. If they do not match, the
    captures are as they were before. -/
def doMatch (pattern : Arena) (p : NodeId) (candidate : Arena) (c : NodeId)
    (maxDepth : Nat) : Matching Bool := do
  let cp ← checkpoint
  if ← matchNode pattern candidate maxDepth maxDepth p (some c) then return true
  else
    restore cp
    return false

end Matching

end SyntaxForest
