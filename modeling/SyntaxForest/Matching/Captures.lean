/-
  Captures: what a match remembers.

  A group is bound to a node of the candidate. The candidate may change later, or the
  next match may be against another arena, so the captures keep a copy of the bound
  subtree in an arena of their own; comparing a node with what a group remembers means
  comparing it with the copy.

  What each group remembers is in a table. A trail tells in which order the groups were
  bound, and the copies lie in the private arena in the same order, one after the other.
  So the captures of an earlier moment are found again from two numbers, how many groups
  there were and how many nodes the private arena had: that is a `Checkpoint`, and
  `Captures.restore` goes back to it. It takes the newer groups off the trail and out of
  the table, and then cuts the arena off.

  A checkpoint is a pair of numbers and nothing else. Going back to one that belongs to
  other captures, or to a past that has been left, is possible. The groups it keeps are
  then some of the groups there are; but where the arena is to be cut need not be where
  a copy ends. If the cut goes through a copy, it is a fault, and by then the groups are
  forgotten while the arena is as it was. If it goes between two copies, then copies can
  be lost whose groups are kept.
-/
import SyntaxForest.Arena.Copy
import SyntaxForest.Dump
import SyntaxForest.Matching.Table

namespace SyntaxForest

/-- What each group remembers, the groups in the order in which they were bound, and the
    copies of what was bound. -/
structure Captures where
  table : Table := .empty
  trail : List String := []
  arena : Arena := .empty
deriving DecidableEq

/-- A moment in the history of captures. -/
structure Checkpoint where
  /-- Number of groups. -/
  bindings : Nat
  /-- Number of nodes in the private arena. -/
  nodes : Nat
deriving DecidableEq

namespace Captures

/-- Nothing captured. -/
def empty : Captures := {}

/-- Number of groups bound. -/
def size (m : Captures) : Nat := m.trail.length

def isEmpty (m : Captures) : Bool := m.trail.isEmpty

/-- What a group remembers. -/
def find? (m : Captures) (group : String) : Option Binding := m.table.find? group

/-- The node bound to a group. -/
def get? (m : Captures) (group : String) : Option NodeId :=
  (m.find? group).map (·.node)

/-- The root of the copy made for a group. -/
def copy? (m : Captures) (group : String) : Option NodeId :=
  (m.find? group).map (·.copy)

def isBound (m : Captures) (group : String) : Bool := (m.find? group).isSome

/-- What the groups remember, in the order in which they were bound. -/
def bindings (m : Captures) : List Binding := m.trail.filterMap m.find?

/-- Enter a binding for a group that has none, the private arena having become `a`. -/
def record (m : Captures) (b : Binding) (a : Arena) : Captures :=
  ⟨m.table.insert b, m.trail ++ [b.group], a⟩

/-- The present moment. -/
def checkpoint (m : Captures) : Checkpoint := ⟨m.size, m.arena.size⟩

/-- Forget all but the oldest `n` groups. -/
def forget (m : Captures) (n : Nat) : Captures :=
  ⟨m.table.eraseAll (m.trail.drop n), m.trail.take n, m.arena⟩

/-- Go back to a checkpoint: forget the groups bound since, and the nodes from the recorded
    size on. If there are no groups to forget nothing happens. A fault keeps the captures
    that were reached. -/
def restore (m : Captures) (cp : Checkpoint) : EStateM.Result Fault Captures Unit :=
  if m.size ≤ cp.bindings then .ok () m
  else
    let kept := m.forget cp.bindings
    match kept.arena.truncate cp.nodes with
    | .ok a => .ok () ⟨kept.table, kept.trail, a⟩
    | .error e => .error e kept

/-- Each group with the dump of its copy. -/
def dumps (m : Captures) (reg : Registry) : Except Fault (List (Binding × String)) :=
  m.bindings.mapM fun b => return (b, ← m.arena.dump reg {} b.copy)

/-! ### Going back -/

/-- A checkpoint with at least as many groups changes nothing. -/
theorem restore_of_le {m : Captures} {cp : Checkpoint} (h : m.size ≤ cp.bindings) :
    m.restore cp = .ok () m := by
  rw [restore, if_pos h]

@[simp] theorem restore_checkpoint (m : Captures) : m.restore m.checkpoint = .ok () m :=
  restore_of_le (Nat.le_refl _)

/-- A checkpoint with fewer groups forgets the newer ones, and cuts the arena off if no link
    crosses the cut. -/
theorem restore_of_lt {m : Captures} {cp : Checkpoint} (h : cp.bindings < m.size) :
    m.restore cp = if m.arena.linksStayBelow cp.nodes
      then .ok () ⟨(m.forget cp.bindings).table, (m.forget cp.bindings).trail,
        m.arena.cut cp.nodes⟩
      else .error (.crossingLink cp.nodes) (m.forget cp.bindings) := by
  rw [restore, if_neg (Nat.not_le.mpr h)]
  show (match m.arena.truncate cp.nodes with | .ok a => _ | .error e => _) = _
  rw [Arena.truncate]
  cases m.arena.linksStayBelow cp.nodes <;> rfl

end Captures

end SyntaxForest
