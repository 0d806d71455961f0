import Mathlib.Algebra.GroupWithZero.Nat
import Mathlib.Data.Fintype.EquivFin
import Mathlib.Data.List.Perm.Subperm
import SyntaxForest.Proofs.Links
import SyntaxForest.Tree

/-!
# The tree a node stands for

`Tree` and `Forest` are defined together.  Seen from outside a tree is a kind and a list of trees
with roles, `Tree.kind` and `Tree.branches`; `Tree.isAt_iff` and `Tree.induction` are in these
terms, and nothing after this section looks at the two types any more.

* `exists_isAt`: in a well-formed arena every node stands for a tree.  There is no infinite
  descent, since "strictly below" is transitive, irreflexive and has finitely many nodes to live
  on.
* `depth_le_size`: a tree that a node stands for is at most as deep as the arena has nodes, in
  every arena.  Along a path downwards the trees get smaller, so the nodes are all different.
* `tree?_eq_some_iff`: the tree can be computed (`Arena.tree?`); one step of recursion for every
  node is enough.
* `IsAt.mono`: a node stands for the same tree in every arena that has its records and more
  (`Arena.IsPrefix`).
-/

namespace SyntaxForest

/-! ### Trees as a kind with a list of trees -/

/-- The trees of a forest with their roles, in order. -/
def Forest.toList : Forest → List (RoleId × Tree)
  | .nil => []
  | .cons role tree rest => (role, tree) :: rest.toList

/-- The forest of the given trees. -/
def Forest.ofList : List (RoleId × Tree) → Forest
  | [] => .nil
  | (role, tree) :: rest => .cons role tree (Forest.ofList rest)

theorem Forest.toList_ofList : ∀ ts : List (RoleId × Tree), (Forest.ofList ts).toList = ts
  | [] => rfl
  | (_, _) :: rest => by rw [ofList, toList, toList_ofList rest]

theorem Forest.ofList_toList : ∀ ts : Forest, Forest.ofList ts.toList = ts
  | .nil => rfl
  | .cons _ _ rest => by rw [toList, ofList, ofList_toList rest]

namespace Tree

/-- The kind at the root. -/
def kind : Tree → Kind
  | .node kind _ => kind

/-- The trees below the root with their roles, in order. -/
def branches : Tree → List (RoleId × Tree)
  | .node _ below => below.toList

/-- The tree with the given kind and the given trees below it. -/
def make (kind : Kind) (branches : List (RoleId × Tree)) : Tree :=
  .node kind (Forest.ofList branches)

@[simp] theorem branches_make (k : Kind) (ts : List (RoleId × Tree)) : (make k ts).branches = ts :=
  Forest.toList_ofList ts

theorem ext {t u : Tree} (hkind : t.kind = u.kind) (hbranches : t.branches = u.branches) :
    t = u := by
  obtain ⟨k, ts⟩ := t
  obtain ⟨l, us⟩ := u
  obtain rfl : k = l := hkind
  rw [← Forest.ofList_toList ts, ← Forest.ofList_toList us]
  exact congrArg (make k) hbranches

end Tree

mutual

/-- **Induction on trees**: a property that a tree has as soon as all the trees below its root
have it is a property of every tree. -/
theorem Tree.induction {motive : Tree → Prop}
    (h : ∀ t : Tree, (∀ x ∈ t.branches, motive x.2) → motive t) : ∀ t, motive t
  | .node k below => h (.node k below) (Forest.induction h below)

theorem Forest.induction {motive : Tree → Prop}
    (h : ∀ t : Tree, (∀ x ∈ t.branches, motive x.2) → motive t) :
    ∀ (ts : Forest), ∀ x ∈ ts.toList, motive x.2
  | .nil, x, hx => by cases hx
  | .cons role tree rest, x, hx => by
    rcases List.mem_cons.mp hx with rfl | hx
    · exact Tree.induction h tree
    · exact Forest.induction h rest x hx

end

theorem Forest.areAt_iff {a : Arena} : ∀ {ts : Forest} {cs : ChildList},
    ts.AreAt a cs ↔ List.Forall₂ (fun x c => c.role = x.1 ∧ x.2.IsAt a c.node) ts.toList cs
  | .nil, cs => by simp [AreAt, toList]
  | .cons role tree rest, cs => by
    rw [AreAt, toList, List.forall₂_cons_left_iff]
    constructor
    · rintro ⟨c, cs', rfl, hrole, htree, hrest⟩
      exact ⟨c, cs', ⟨hrole, htree⟩, areAt_iff.mp hrest, rfl⟩
    · rintro ⟨c, cs', ⟨hrole, htree⟩, hrest, rfl⟩
      exact ⟨c, cs', rfl, hrole, htree, areAt_iff.mpr hrest⟩

/-- A node stands for a tree if its record has the kind at the root, and its children stand for
the trees below, with the same roles. -/
theorem Tree.isAt_iff {a : Arena} {t : Tree} {n : Nat} :
    t.IsAt a n ↔ ∃ d, a.node? n = some d ∧ d.kind = t.kind ∧
      List.Forall₂ (fun x c => c.role = x.1 ∧ x.2.IsAt a c.node) t.branches d.children := by
  obtain ⟨k, ts⟩ := t
  rw [Tree.IsAt]
  refine exists_congr fun d => and_congr_right fun _ => and_congr_right fun _ => ?_
  exact Forest.areAt_iff

/-! ### Depth and size -/

mutual

/-- Number of nodes on the longest path downwards. -/
def Tree.depth : Tree → Nat
  | .node _ below => below.depth + 1

/-- Depth of the deepest of the trees. -/
def Forest.depth : Forest → Nat
  | .nil => 0
  | .cons _ tree rest => max tree.depth rest.depth

end

namespace Forest

theorem depth_le_of_mem : ∀ {ts : Forest} {x : RoleId × Tree}, x ∈ ts.toList → x.2.depth ≤ ts.depth
  | .nil, x, hx => by cases hx
  | .cons role tree rest, x, hx => by
    rw [depth]
    rcases List.mem_cons.mp hx with rfl | hx
    · exact Nat.le_max_left _ _
    · exact Nat.le_trans (depth_le_of_mem hx) (Nat.le_max_right _ _)

theorem exists_deepest : ∀ ts : Forest, ts.depth = 0 ∨ ∃ x ∈ ts.toList, ts.depth = x.2.depth
  | .nil => .inl rfl
  | .cons role tree rest => by
    rw [depth]
    rcases Nat.le_total tree.depth rest.depth with hle | hle
    · rw [Nat.max_eq_right hle]
      rcases exists_deepest rest with h | ⟨x, hx, h⟩
      · exact .inl h
      · exact .inr ⟨x, List.mem_cons_of_mem _ hx, h⟩
    · rw [Nat.max_eq_left hle]
      exact .inr ⟨(role, tree), List.mem_cons_self, rfl⟩

theorem size_le_of_mem : ∀ {ts : Forest} {x : RoleId × Tree}, x ∈ ts.toList → x.2.size ≤ ts.size
  | .nil, x, hx => by cases hx
  | .cons role tree rest, x, hx => by
    rw [size]
    rcases List.mem_cons.mp hx with rfl | hx
    · exact Nat.le_add_right _ _
    · exact Nat.le_trans (size_le_of_mem hx) (Nat.le_add_left _ _)

theorem size_eq_sum : ∀ ts : Forest, ts.size = (ts.toList.map fun x => x.2.size).sum
  | .nil => rfl
  | .cons role tree rest => by rw [size, toList, List.map_cons, List.sum_cons, size_eq_sum rest]

end Forest

namespace Tree

theorem depth_lt_of_mem {t : Tree} {x : RoleId × Tree} (hx : x ∈ t.branches) :
    x.2.depth < t.depth := by
  obtain ⟨k, ts⟩ := t
  rw [depth]
  exact Nat.lt_succ_of_le (Forest.depth_le_of_mem hx)

theorem depth_eq_one_or (t : Tree) : t.depth = 1 ∨ ∃ x ∈ t.branches, t.depth = x.2.depth + 1 := by
  obtain ⟨k, ts⟩ := t
  rw [depth]
  rcases Forest.exists_deepest ts with h | ⟨x, hx, h⟩
  · exact .inl (by rw [h])
  · exact .inr ⟨x, hx, by rw [h]⟩

theorem depth_pos (t : Tree) : 0 < t.depth := by
  rcases t.depth_eq_one_or with h | ⟨x, -, h⟩ <;> omega

theorem size_lt_of_mem {t : Tree} {x : RoleId × Tree} (hx : x ∈ t.branches) :
    x.2.size < t.size := by
  obtain ⟨k, ts⟩ := t
  rw [size]
  exact Nat.lt_succ_of_le (Forest.size_le_of_mem hx)

theorem size_eq_sum (t : Tree) : t.size = (t.branches.map fun x => x.2.size).sum + 1 := by
  obtain ⟨k, ts⟩ := t
  rw [size, Forest.size_eq_sum]
  rfl

theorem size_pos (t : Tree) : 0 < t.size := by
  rw [size_eq_sum]
  omega

end Tree

/-! ### Arenas that have all the records of another -/

namespace Arena

/-- Every record of `a` is a record of `b`. -/
def IsPrefix (a b : Arena) : Prop := ∀ (n : Nat) (d : Node), a.node? n = some d → b.node? n = some d

theorem IsPrefix.refl (a : Arena) : a.IsPrefix a := fun _ _ h => h

theorem IsPrefix.trans {a b c : Arena} (hab : a.IsPrefix b) (hbc : b.IsPrefix c) : a.IsPrefix c :=
  fun n d h => hbc n d (hab n d h)

theorem IsPrefix.size_le {a b : Arena} (h : a.IsPrefix b) : a.size ≤ b.size := by
  by_contra hlt
  obtain ⟨d, hd⟩ := exists_node?_of_lt (Nat.lt_of_not_le hlt)
  have := lt_size_of_node? (h _ _ hd)
  omega

theorem isPrefix_push (a : Arena) (k : Kind) : a.IsPrefix (a.push k) :=
  fun _ _ h => node?_push_of_some h

end Arena

theorem Tree.IsAt.mono {a b : Arena} (hab : a.IsPrefix b) {t : Tree} :
    ∀ {n : Nat}, t.IsAt a n → t.IsAt b n := by
  induction t using Tree.induction with
  | h t ih =>
    intro n ht
    obtain ⟨d, hd, hkind, hbelow⟩ := Tree.isAt_iff.mp ht
    refine Tree.isAt_iff.mpr ⟨d, hab n d hd, hkind, ?_⟩
    refine ((List.forall₂_and_left _ _).mpr ⟨ih, hbelow⟩).imp ?_
    rintro x c ⟨hmono, hrole, hx⟩
    exact ⟨hrole, hmono hx⟩

/-! ### Every node of a well-formed arena stands for a tree -/

namespace Arena

/-- **Descent**: a property that a node has as soon as all its children have it is a property of
every node. -/
theorem WellFormed.descent {a : Arena} (hw : a.WellFormed) {motive : Nat → Prop}
    (h : ∀ (n : Nat) (d : Node), a.node? n = some d → (∀ c ∈ d.children, motive c.node) → motive n)
    {n : Nat} (hn : n < a.size) : motive n := by
  -- only nodes of the arena are related, so there are finitely many to go down to
  let Below : Fin a.size → Fin a.size → Prop := fun x y => a.Ancestor y.val x.val
  have : IsTrans (Fin a.size) Below := ⟨fun _ _ _ hxy hyz => hyz.trans hxy⟩
  have : Std.Irrefl Below := ⟨fun x hx => hw.acyclic x.val hx⟩
  have hwf : WellFounded Below := Finite.wellFounded_of_trans_of_irrefl Below
  suffices hall : ∀ x : Fin a.size, motive x.val from hall ⟨n, hn⟩
  intro x
  induction x using hwf.induction with
  | h x ih =>
    obtain ⟨d, hd⟩ := exists_node?_of_lt x.isLt
    refine h x.val d hd fun c hc => ?_
    obtain ⟨e, he, hp, -⟩ := exists_node?_of_listed hw hd hc
    exact ih ⟨c.node, lt_size_of_node? he⟩ (.parent he hp)

theorem exists_areAt {a : Arena} {cs : ChildList} (h : ∀ c ∈ cs, ∃ t : Tree, t.IsAt a c.node) :
    ∃ ts : List (RoleId × Tree),
      List.Forall₂ (fun x c => c.role = x.1 ∧ x.2.IsAt a c.node) ts cs := by
  induction cs with
  | nil => exact ⟨[], .nil⟩
  | cons c cs ih =>
    obtain ⟨t, ht⟩ := h c List.mem_cons_self
    obtain ⟨ts, hts⟩ := ih fun x hx => h x (List.mem_cons_of_mem _ hx)
    exact ⟨(c.role, t) :: ts, .cons ⟨rfl, ht⟩ hts⟩

/-- In a well-formed arena every node stands for a tree. -/
theorem WellFormed.exists_isAt {a : Arena} (hw : a.WellFormed) {n : Nat} (hn : n < a.size) :
    ∃ t : Tree, t.IsAt a n := by
  refine hw.descent (motive := fun n => ∃ t : Tree, t.IsAt a n) (fun n d hd hchildren => ?_) hn
  obtain ⟨ts, hts⟩ := exists_areAt hchildren
  exact ⟨Tree.make d.kind ts, Tree.isAt_iff.mpr ⟨d, hd, rfl, by rwa [Tree.branches_make]⟩⟩

end Arena

/-! ### Depth is bounded by the arena -/

theorem Tree.IsAt.lt_size {a : Arena} {t : Tree} {n : Nat} (h : t.IsAt a n) : n < a.size := by
  obtain ⟨d, hd, -⟩ := Tree.isAt_iff.mp h
  exact Arena.lt_size_of_node? hd

theorem Tree.IsAt.kind_eq_ok {a : Arena} {t : Tree} {n : NodeId} (ht : t.IsAt a n) :
    a.kind n = .ok t.kind := by
  obtain ⟨d, hd, hkind, -⟩ := Tree.isAt_iff.mp ht
  rw [Arena.kind_of_node? hd, hkind]

theorem exists_of_forall₂_left {α β : Type} {R : α → β → Prop} {xs : List α} {ys : List β}
    (h : List.Forall₂ R xs ys) {x : α} (hx : x ∈ xs) : ∃ y ∈ ys, R x y := by
  induction h with
  | nil => cases hx
  | cons hxy _ ih =>
    rcases List.mem_cons.mp hx with rfl | hx
    · exact ⟨_, List.mem_cons_self, hxy⟩
    · obtain ⟨y, hy, hr⟩ := ih hx
      exact ⟨y, List.mem_cons_of_mem _ hy, hr⟩

theorem exists_of_forall₂_right {α β : Type} {R : α → β → Prop} {xs : List α} {ys : List β}
    (h : List.Forall₂ R xs ys) {y : β} (hy : y ∈ ys) : ∃ x ∈ xs, R x y :=
  exists_of_forall₂_left h.flip hy

/-- Two lists that are related to the same list are related to each other. -/
theorem forall₂_of_common {α β γ : Type} {R : α → β → Prop} {S : α → γ → Prop} {T : β → γ → Prop}
    (hT : ∀ x y z, R x y → S x z → T y z) :
    ∀ {xs : List α} {ys : List β} {zs : List γ}, List.Forall₂ R xs ys → List.Forall₂ S xs zs →
      List.Forall₂ T ys zs
  | [], _, _, .nil, .nil => .nil
  | _ :: _, _, _, .cons hR hRs, .cons hS hSs =>
    .cons (hT _ _ _ hR hS) (forall₂_of_common hT hRs hSs)

/-- What holds of all pairs of members that are related holds of two related lists. -/
theorem forall₂_of_mem {α β : Type} {R S : α → β → Prop} {xs : List α} {ys : List β}
    (h : List.Forall₂ R xs ys) (himp : ∀ x ∈ xs, ∀ y ∈ ys, R x y → S x y) :
    List.Forall₂ S xs ys := by
  induction h with
  | nil => exact .nil
  | cons hxy _ ih =>
    exact .cons (himp _ List.mem_cons_self _ List.mem_cons_self hxy) (ih fun x hx y hy =>
      himp x (List.mem_cons_of_mem _ hx) y (List.mem_cons_of_mem _ hy))

/-- A tree below the root is what some child stands for. -/
theorem Tree.IsAt.exists_child {a : Arena} {t : Tree} {n : Nat} (h : t.IsAt a n)
    {x : RoleId × Tree} (hx : x ∈ t.branches) :
    ∃ d c, a.node? n = some d ∧ c ∈ d.children ∧ x.2.IsAt a c.node := by
  obtain ⟨d, hd, -, hbelow⟩ := Tree.isAt_iff.mp h
  obtain ⟨c, hc, hxc⟩ := exists_of_forall₂_left hbelow hx
  exact ⟨d, c, hd, hc, hxc.2⟩

/-- A child stands for a tree below the root, which is less deep. -/
theorem Tree.IsAt.exists_branch {a : Arena} {t : Tree} {n : Nat} (h : t.IsAt a n) {d : Node}
    (hn : a.node? n = some d) {c : Child} (hc : c ∈ d.children) :
    ∃ x ∈ t.branches, x.2.IsAt a c.node ∧ x.2.depth < t.depth := by
  obtain ⟨e, he, -, hbelow⟩ := Tree.isAt_iff.mp h
  obtain rfl : d = e := Option.some.inj (hn.symm.trans he)
  obtain ⟨x, hx, hxc⟩ := exists_of_forall₂_right hbelow hc
  exact ⟨x, hx, hxc.2, depth_lt_of_mem hx⟩

/-- A longest path downwards, node by node.  The nodes stand for smaller and smaller trees, so
none of them comes twice. -/
theorem Tree.IsAt.exists_path {a : Arena} {t : Tree} : ∀ {n : Nat}, t.IsAt a n →
    ∃ path : List Nat, path.length = t.depth ∧ path.Nodup ∧
      ∀ m ∈ path, ∃ u : Tree, u.IsAt a m ∧ u.size ≤ t.size := by
  induction t using Tree.induction with
  | h t ih =>
    intro n ht
    rcases t.depth_eq_one_or with h | ⟨x, hx, h⟩
    · refine ⟨[n], h.symm, List.nodup_singleton n, fun m hm => ?_⟩
      rw [List.mem_singleton.mp hm]
      exact ⟨t, ht, Nat.le_refl _⟩
    · obtain ⟨d, c, hd, -, hxc⟩ := ht.exists_child hx
      obtain ⟨path, hlen, hnodup, hpath⟩ := ih x hx hxc
      have hlt := size_lt_of_mem hx
      refine ⟨n :: path, by rw [List.length_cons, hlen, h], ?_, ?_⟩
      · rw [List.nodup_cons]
        -- the nodes of the rest stand for smaller trees than `n` does
        refine ⟨fun hmem => ?_, hnodup⟩
        obtain ⟨u, hu, hle⟩ := hpath n hmem
        rw [ht.unique hu] at hlt
        omega
      · intro m hm
        rcases List.mem_cons.mp hm with rfl | hm
        · exact ⟨t, ht, Nat.le_refl _⟩
        · obtain ⟨u, hu, hle⟩ := hpath m hm
          exact ⟨u, hu, by omega⟩

/-- There are at most as many different ids as there are nodes. -/
theorem length_le_size_of_nodup {a : Arena} {ids : List Nat} (hnodup : ids.Nodup)
    (hlt : ∀ m ∈ ids, m < a.size) : ids.length ≤ a.size := by
  have hsub : ids ⊆ List.range a.size := fun m hm => List.mem_range.mpr (hlt m hm)
  have := (hnodup.subperm hsub).length_le
  rwa [List.length_range] at this

/-- A tree that a node stands for is at most as deep as the arena has nodes. -/
theorem Tree.IsAt.depth_le_size {a : Arena} {t : Tree} {n : Nat} (h : t.IsAt a n) :
    t.depth ≤ a.size := by
  obtain ⟨path, hlen, hnodup, hpath⟩ := h.exists_path
  rw [← hlen]
  refine length_le_size_of_nodup hnodup fun m hm => ?_
  obtain ⟨u, hu, -⟩ := hpath m hm
  exact hu.lt_size

/-! ### Computing the tree -/

theorem mapM_eq_some_iff {α β : Type} {f : α → Option β} : ∀ {xs : List α} {ys : List β},
    xs.mapM f = some ys ↔ List.Forall₂ (fun x y => f x = some y) xs ys
  | [], ys => by
    rw [List.mapM_nil, List.forall₂_nil_left_iff]
    exact ⟨fun h => (Option.some.inj h).symm, fun h => by rw [h]; rfl⟩
  | x :: xs, ys => by
    rw [List.mapM_cons, List.forall₂_cons_left_iff]
    constructor
    · intro h
      obtain ⟨y, hy, h⟩ := Option.bind_eq_some_iff.mp h
      obtain ⟨zs, hzs, h⟩ := Option.bind_eq_some_iff.mp h
      exact ⟨y, zs, hy, mapM_eq_some_iff.mp hzs, (Option.some.inj h).symm⟩
    · rintro ⟨y, zs, hy, hzs, rfl⟩
      rw [hy, mapM_eq_some_iff.mpr hzs]
      rfl

namespace Arena

/-- The tree that `n` stands for, read at most `fuel` levels down. -/
def readTree (a : Arena) : Nat → NodeId → Option Tree
  | 0, _ => none
  | fuel + 1, n => do
    let d ← a.node? n
    let ts ← d.children.mapM fun c => (readTree a fuel c.node).map fun t => (c.role, t)
    return Tree.make d.kind ts

/-- The tree that `n` stands for, if there is one. -/
def tree? (a : Arena) (n : NodeId) : Option Tree := a.readTree a.size n

theorem isAt_of_readTree {a : Arena} :
    ∀ {fuel n : Nat} {t : Tree}, a.readTree fuel n = some t → t.IsAt a n
  | 0, n, t, h => by cases h
  | fuel + 1, n, t, h => by
    unfold readTree at h
    obtain ⟨d, hd, h⟩ := Option.bind_eq_some_iff.mp h
    obtain ⟨ts, hts, h⟩ := Option.bind_eq_some_iff.mp h
    obtain rfl := Option.some.inj h
    refine Tree.isAt_iff.mpr ⟨d, hd, rfl, ?_⟩
    rw [Tree.branches_make]
    refine ((mapM_eq_some_iff.mp hts).imp fun c x hx => ?_).flip
    obtain ⟨u, hu, rfl⟩ := Option.map_eq_some_iff.mp hx
    exact ⟨rfl, isAt_of_readTree hu⟩

theorem readTree_of_isAt {a : Arena} {t : Tree} :
    ∀ {fuel n : Nat}, t.IsAt a n → t.depth ≤ fuel → a.readTree fuel n = some t := by
  induction t using Tree.induction with
  | h t ih =>
    intro fuel n ht hfuel
    cases fuel with
    | zero => exact absurd t.depth_pos (Nat.not_lt.mpr hfuel)
    | succ fuel =>
      obtain ⟨d, hd, hkind, hbelow⟩ := Tree.isAt_iff.mp ht
      have hts : d.children.mapM (fun c => (a.readTree fuel c.node).map fun t => (c.role, t)) =
          some t.branches := by
        -- what is below is less deep, so one level less of fuel is enough for it
        have hread : ∀ x ∈ t.branches, ∀ m, x.2.IsAt a m → a.readTree fuel m = some x.2 :=
          fun x hx m hm => ih x hx hm (by have := Tree.depth_lt_of_mem hx; omega)
        refine mapM_eq_some_iff.mpr
          (((List.forall₂_and_left _ _).mpr ⟨hread, hbelow⟩).imp ?_).flip
        rintro ⟨role, u⟩ c ⟨hu, rfl, hc⟩
        exact congrArg (Option.map fun t => (c.role, t)) (hu _ hc)
      unfold readTree
      rw [hd, Option.bind_eq_bind, Option.bind_some, hts, Option.bind_eq_bind, Option.bind_some]
      exact congrArg some (Tree.ext hkind (Tree.branches_make _ _))

/-- The computed tree is the tree the node stands for. -/
theorem tree?_eq_some_iff {a : Arena} {n : Nat} {t : Tree} : a.tree? n = some t ↔ t.IsAt a n :=
  ⟨isAt_of_readTree, fun h => readTree_of_isAt h h.depth_le_size⟩

end Arena

end SyntaxForest
