/-
  Trees on their own.

  A node of an arena stands for a tree: its kind, and the trees its children stand for,
  in order and with their roles. `Tree` is that tree without ids and without an arena.
  It is what two nodes of different arenas can have in common, what a copy preserves and
  what a dump shows.

  `Tree.IsAt` says which tree a node stands for. It asks for every node of the tree to
  be in the arena, so an id that leads out of the arena stands for no tree at all; and a
  node stands for at most one tree (`Tree.IsAt.unique`).
-/
import SyntaxForest.Arena.Basic

namespace SyntaxForest

mutual

/-- A kind with the trees below it. -/
inductive Tree
  | node (kind : Kind) (below : Forest)

/-- Trees in order, each with its role. -/
inductive Forest
  | nil
  | cons (role : RoleId) (tree : Tree) (rest : Forest)

end

mutual

/-- Number of nodes of a tree. -/
def Tree.size : Tree → Nat
  | .node _ below => below.size + 1

/-- Number of nodes of all the trees. -/
def Forest.size : Forest → Nat
  | .nil => 0
  | .cons _ tree rest => tree.size + rest.size

end

mutual

/-- The node `n` of the arena stands for the tree. -/
def Tree.IsAt (a : Arena) : Tree → NodeId → Prop
  | .node k below, n => ∃ d, a.node? n = some d ∧ d.kind = k ∧ below.AreAt a d.children

/-- The children stand for the trees, one by one and with the same roles. -/
def Forest.AreAt (a : Arena) : Forest → ChildList → Prop
  | .nil, cs => cs = []
  | .cons r tree rest, cs =>
    ∃ c cs', cs = c :: cs' ∧ c.role = r ∧ tree.IsAt a c.node ∧ rest.AreAt a cs'

end

mutual

/-- A node stands for one tree. -/
theorem Tree.IsAt.unique {a : Arena} :
    ∀ {t u : Tree} {n : NodeId}, t.IsAt a n → u.IsAt a n → t = u
  | .node k below, .node l beside, n, ht, hu => by
    obtain ⟨d, hd, rfl, hbelow⟩ := ht
    obtain ⟨e, he, rfl, hbeside⟩ := hu
    obtain rfl : d = e := by rw [hd] at he; exact Option.some.inj he
    rw [Forest.AreAt.unique hbelow hbeside]

/-- Children stand for one list of trees. -/
theorem Forest.AreAt.unique {a : Arena} :
    ∀ {ts us : Forest} {cs : ChildList}, ts.AreAt a cs → us.AreAt a cs → ts = us
  | .nil, .nil, _, _, _ => rfl
  | .nil, .cons _ _ _, _, ht, hu => by
    obtain ⟨_, _, hcons, -⟩ := hu
    rw [Forest.AreAt] at ht
    simp [ht] at hcons
  | .cons _ _ _, .nil, _, ht, hu => by
    obtain ⟨_, _, hcons, -⟩ := ht
    rw [Forest.AreAt] at hu
    simp [hu] at hcons
  | .cons r t rest, .cons s u others, cs, ht, hu => by
    obtain ⟨c, cs', hc, rfl, htree, hrest⟩ := ht
    obtain ⟨e, es, he, rfl, hother, hothers⟩ := hu
    obtain ⟨rfl, rfl⟩ : c = e ∧ cs' = es := by rw [hc] at he; exact List.cons.inj he
    rw [Tree.IsAt.unique htree hother, Forest.AreAt.unique hrest hothers]

end

end SyntaxForest
