/-
  Child lists.

  A node holds its children in one list, in the order in which they stand in the
  text, each with the role it sits under. Children of different roles interleave
  freely, so "the child under a role" is found by searching the list, and a child is
  put into a slot without disturbing the order of the others:

    - a slot that is taken keeps its position, only the node changes
      (`ChildList.replaceUnder`);
    - an empty slot is filled right before a given sibling, or at the end if there is
      no such sibling (`ChildList.insertBefore`).

  `ChildList.put` chooses between the two. `ChildList.split?` takes a list apart at a
  node, which is what moving along siblings, detaching and replacing have in common.
-/
import SyntaxForest.Fault

namespace SyntaxForest

/-- An entry of a child list. -/
structure Child where
  role : RoleId
  node : NodeId
deriving DecidableEq

/-- The children of a node, in order. -/
abbrev ChildList := List Child

namespace ChildList

/-- The first child under a role. -/
def firstUnder? (cs : ChildList) (r : RoleId) : Option NodeId :=
  (cs.find? (·.role = r)).map (·.node)

/-- All children under a role, in order. -/
def allUnder (cs : ChildList) (r : RoleId) : List NodeId :=
  (cs.filter (·.role = r)).map (·.node)

/-- Put `entry` right before the child `anchor`, or at the end. -/
def insertBefore (entry : Child) (anchor : Option NodeId) : ChildList → ChildList
  | [] => [entry]
  | c :: cs =>
    if anchor = some c.node then entry :: c :: cs else c :: insertBefore entry anchor cs

/-- Let `n` take the place of the first child under `r`. -/
def replaceUnder (r : RoleId) (n : NodeId) : ChildList → ChildList
  | [] => []
  | c :: cs => if c.role = r then ⟨r, n⟩ :: cs else c :: replaceUnder r n cs

/-- Remove the first child under `r`. -/
def eraseUnder (cs : ChildList) (r : RoleId) : ChildList :=
  cs.eraseP (·.role = r)

/-- Occupy the slot `r` with `n`: in place if it is taken, else before `anchor`. -/
def put (cs : ChildList) (r : RoleId) (n : NodeId) (anchor : Option NodeId) : ChildList :=
  match cs.firstUnder? r with
  | some _ => replaceUnder r n cs
  | none => insertBefore ⟨r, n⟩ anchor cs

/-- Take the list apart at the first entry for `n`: what stands before it, its role,
    and what stands after it. -/
def split? (n : NodeId) : ChildList → Option (ChildList × RoleId × ChildList)
  | [] => none
  | c :: cs =>
    if c.node = n then some ([], c.role, cs)
    else (split? n cs).map fun (before, role, after) => (c :: before, role, after)

/-- The parts of a list taken apart at `n` give the list back. -/
theorem split?_eq_some {n : NodeId} {cs before after : ChildList} {r : RoleId}
    (h : split? n cs = some (before, r, after)) : cs = before ++ ⟨r, n⟩ :: after := by
  induction cs generalizing before with
  | nil => simp [split?] at h
  | cons c cs ih =>
    unfold split? at h
    split at h
    next hc =>
      -- the entry is at the front
      obtain ⟨rfl, rfl, rfl⟩ := by simpa using h
      simp [← hc]
    next =>
      rw [Option.map_eq_some_iff] at h
      obtain ⟨⟨before', r', after'⟩, hs, he⟩ := h
      obtain ⟨rfl, rfl, rfl⟩ := by simpa using he
      rw [ih hs, List.cons_append]

end ChildList

end SyntaxForest
