import SyntaxForest.Arena.Walk
import SyntaxForest.Proofs.Denotation

/-!
# What a walk comes by

In a well-formed arena a walk downwards from a node comes by the node and everything below it, and
by nothing else (`exists_descendants_eq_ok`).  "Below" is the other way round of "above", which is
told by parent links: what joins the two is that the last step of a chain upwards ends in the
node, so it starts from one of its children (`Ancestor.exists_child_below`).

What a walk lists is first said by recursion (`preorder`): the node, and then the lists of its
children one after the other.  No node comes twice (`nodup_preorder`), since there is one chain
upwards from each node, and it passes through one of the children only
(`WellFormed.eq_of_atOrBelow_children`).  So a walk lists as many nodes as the tree at its first
node has (`length_preorder`), and no more than the arena has.  Hence the walk by a stack has enough
steps to come to its end: by the time it comes to what was on the stack below a node, it has listed
what the recursion lists for that node (`collect_of_preorder`).
-/

namespace SyntaxForest

/-- Steps that all succeed, one after the other. -/
theorem exists_mapM_eq_ok {α β ε : Type} {f : α → Except ε β} :
    ∀ {xs : List α}, (∀ x ∈ xs, ∃ y, f x = .ok y) → ∃ ys, xs.mapM f = .ok ys
  | [], _ => ⟨[], rfl⟩
  | x :: xs, h => by
    obtain ⟨y, hy⟩ := h x List.mem_cons_self
    obtain ⟨ys, hys⟩ := exists_mapM_eq_ok fun z hz => h z (List.mem_cons_of_mem _ hz)
    refine ⟨y :: ys, ?_⟩
    rw [List.mapM_cons, hy, hys]
    rfl

/-- What comes of steps that have all succeeded. -/
theorem forall₂_of_mapM_eq_ok {α β ε : Type} {f : α → Except ε β} :
    ∀ {xs : List α} {ys : List β}, xs.mapM f = .ok ys →
      List.Forall₂ (fun x y => f x = .ok y) xs ys
  | [], ys, h => by
    cases h
    exact .nil
  | x :: xs, ys, h => by
    rw [List.mapM_cons] at h
    cases hx : f x with
    | error e => rw [hx] at h; cases h
    | ok y =>
      cases hxs : xs.mapM f with
      | error e => rw [hx, hxs] at h; cases h
      | ok zs =>
        rw [hx, hxs] at h
        cases h
        exact .cons hx (forall₂_of_mapM_eq_ok hxs)

/-- What holds between the members of a list passes on to a list that is related to it. -/
theorem pairwise_of_forall₂ {α β : Type} {R : α → β → Prop} {S : α → α → Prop} {T : β → β → Prop}
    {xs : List α} {ys : List β} (hxy : List.Forall₂ R xs ys) (hS : xs.Pairwise S)
    (hT : ∀ x ∈ xs, ∀ x' ∈ xs, S x x' → ∀ y y', R x y → R x' y' → T y y') : ys.Pairwise T := by
  induction hxy with
  | nil => exact .nil
  | @cons x y xs ys hx hxs ih =>
    obtain ⟨hfirst, hrest⟩ := List.pairwise_cons.mp hS
    refine List.pairwise_cons.mpr ⟨fun y' hy' => ?_, ih hrest fun z hz z' hz' =>
      hT z (List.mem_cons_of_mem _ hz) z' (List.mem_cons_of_mem _ hz')⟩
    obtain ⟨x', hx', hr⟩ := exists_of_forall₂_right hxs hy'
    exact hT x List.mem_cons_self x' (List.mem_cons_of_mem _ hx') (hfirst x' hx') y y' hx hr

namespace Arena

variable {a : Arena}

/-- The node `m` is `n`, or below it. -/
def AtOrBelow (a : Arena) (n m : NodeId) : Prop := m = n ∨ a.Ancestor n m

theorem AtOrBelow.refl (a : Arena) (n : NodeId) : a.AtOrBelow n n := .inl rfl

theorem AtOrBelow.trans {x y z : NodeId} (hxy : a.AtOrBelow x y) (hyz : a.AtOrBelow y z) :
    a.AtOrBelow x z := by
  rcases hxy with rfl | hxy
  · exact hyz
  · rcases hyz with rfl | hyz
    · exact .inr hxy
    · exact .inr (hxy.trans hyz)

theorem WellFormed.atOrBelow_child (hw : a.WellFormed) {n : Nat} {d : Node}
    (hn : a.node? n = some d) {c : Child} (hc : c ∈ d.children) : a.AtOrBelow n c.node := by
  obtain ⟨e, he, hp, -⟩ := exists_node?_of_listed hw hn hc
  exact .inr (.parent he hp)

theorem WellFormed.atOrBelow_of_child? (hw : a.WellFormed) {n x : Nat} {r : RoleId}
    (h : a.child? n r = .ok (some x)) : a.AtOrBelow n x ∧ x < a.size := by
  obtain ⟨d, hd, hx⟩ := child?_eq_ok_iff.mp h
  have hmem := ChildList.mem_of_firstUnder? hx
  exact ⟨hw.atOrBelow_child hd hmem, hw.child_lt n d _ hd hmem⟩

theorem WellFormed.atOrBelow_of_childrenUnder (hw : a.WellFormed) {n x : Nat} {r : RoleId}
    {xs : List NodeId} (h : a.childrenUnder n r = .ok xs) (hx : x ∈ xs) :
    a.AtOrBelow n x ∧ x < a.size := by
  obtain ⟨d, hd, rfl⟩ := childrenUnder_eq_ok_iff.mp h
  have hmem := ChildList.mem_allUnder_iff.mp hx
  exact ⟨hw.atOrBelow_child hd hmem, hw.child_lt n d _ hd hmem⟩

/-- A chain upwards to `n` comes to `n` from a child. -/
theorem Ancestor.exists_child_below {n m : NodeId} (h : a.Ancestor n m) :
    ∃ x e, a.node? x = some e ∧ e.parent = some n ∧ a.AtOrBelow x m := by
  induction h with
  | parent hm hp => exact ⟨_, _, hm, hp, .refl a _⟩
  | above hm hp _ ih =>
    obtain ⟨x, e, he, hx, hbelow⟩ := ih
    exact ⟨x, e, he, hx, hbelow.trans (.inr (.parent hm hp))⟩

theorem WellFormed.atOrBelow_iff (hw : a.WellFormed) {n m : Nat} {d : Node}
    (hn : a.node? n = some d) :
    a.AtOrBelow n m ↔ m = n ∨ ∃ c ∈ d.children, a.AtOrBelow c.node m := by
  refine or_congr_right ⟨fun h => ?_, ?_⟩
  · -- whose parent is `n` is listed by `n`
    obtain ⟨x, e, he, hp, hbelow⟩ := h.exists_child_below
    obtain ⟨c, hc, rfl⟩ := List.mem_map.mp ((hw.listed_iff x n e d he hn).mpr hp)
    exact ⟨c, hc, hbelow⟩
  · rintro ⟨c, hc, hbelow⟩
    obtain ⟨e, he, hp, -⟩ := exists_node?_of_listed hw hn hc
    rcases hbelow with rfl | hbelow
    · exact .parent he hp
    · exact Ancestor.trans (.parent he hp) hbelow

/-- Chains of parents that start from one node have the same course. -/
theorem AtOrBelow.total {x y m : Nat} (hx : a.AtOrBelow x m) (hy : a.AtOrBelow y m) :
    a.AtOrBelow x y ∨ a.AtOrBelow y x := by
  rcases hx with rfl | hx
  · exact .inr hy
  · induction hx with
    | parent hm hp =>
      -- the first step leads to `x`, so `y` is the node itself or above `x`
      rcases hy with rfl | hy
      · exact .inl (.inr (.parent hm hp))
      · cases hy with
        | parent hm' hp' =>
          cases hm.symm.trans hm'
          cases hp.symm.trans hp'
          exact .inl (.refl a _)
        | above hm' hp' hy =>
          cases hm.symm.trans hm'
          cases hp.symm.trans hp'
          exact .inr (.inr hy)
    | above hm hp hx ih =>
      rcases hy with rfl | hy
      · exact .inl (.inr (.above hm hp hx))
      · cases hy with
        | parent hm' hp' =>
          cases hm.symm.trans hm'
          cases hp.symm.trans hp'
          exact .inl (.inr hx)
        | above hm' hp' hy =>
          cases hm.symm.trans hm'
          cases hp.symm.trans hp'
          exact ih (.inr hy)

/-- What is below one child is not below another. -/
theorem WellFormed.eq_of_atOrBelow_children (hw : a.WellFormed) {n m : Nat} {d : Node}
    (hn : a.node? n = some d) {x y : Child} (hx : x ∈ d.children) (hy : y ∈ d.children)
    (hxm : a.AtOrBelow x.node m) (hym : a.AtOrBelow y.node m) : x.node = y.node := by
  -- a child above another child would be above its own parent
  have hnot : ∀ {x y : Child}, x ∈ d.children → y ∈ d.children → ¬ a.Ancestor x.node y.node := by
    intro x y hx hy h
    obtain ⟨e, he, hp, -⟩ := exists_node?_of_listed hw hn hx
    obtain ⟨f, hf, hq, -⟩ := exists_node?_of_listed hw hn hy
    refine hw.acyclic n ?_
    cases h with
    | parent hf' hq' =>
      cases hf.symm.trans hf'
      cases hq.symm.trans hq'
      exact .parent he hp
    | above hf' hq' h =>
      cases hf.symm.trans hf'
      cases hq.symm.trans hq'
      exact Ancestor.trans (.parent he hp) h
  rcases hxm.total hym with (h | h) | (h | h)
  · exact h.symm
  · exact absurd h (hnot hx hy)
  · exact h
  · exact absurd h (hnot hy hx)

/-! ### The list of a walk, by recursion -/

/-- The nodes at and below `n`, at most `fuel` levels down. -/
def preorder (a : Arena) : Nat → NodeId → Except Fault (List NodeId)
  | 0, _ => .error .endless
  | fuel + 1, n => do
    let cs ← a.children n
    let below ← cs.mapM fun c => preorder a fuel c.node
    return n :: below.flatten

/-- A walk that comes to an end has come by the node, and then by what is below each of its
children in turn. -/
theorem preorder_succ_eq_ok {fuel n : Nat} {ns : List NodeId}
    (h : a.preorder (fuel + 1) n = .ok ns) :
    ∃ d nss, a.node? n = some d ∧ ns = n :: nss.flatten ∧
      List.Forall₂ (fun (c : Child) ms => a.preorder fuel c.node = .ok ms) d.children nss := by
  unfold preorder at h
  cases hcs : a.children n with
  | error e => rw [hcs] at h; cases h
  | ok cs =>
    obtain ⟨d, hd, rfl⟩ := children_eq_ok_iff.mp hcs
    rw [hcs] at h
    simp only [bind, Except.bind] at h
    cases hnss : d.children.mapM fun c => a.preorder fuel c.node with
    | error e => rw [hnss] at h; cases h
    | ok nss =>
      rw [hnss] at h
      cases h
      exact ⟨d, nss, hd, rfl, forall₂_of_mapM_eq_ok hnss⟩

theorem mem_preorder_iff (hw : a.WellFormed) : ∀ {fuel n : Nat} {ns : List NodeId},
    a.preorder fuel n = .ok ns → ∀ m, m ∈ ns ↔ a.AtOrBelow n m
  | 0, _, _, h => by cases h
  | fuel + 1, n, _, h => by
    intro m
    obtain ⟨d, nss, hd, rfl, hbelow⟩ := preorder_succ_eq_ok h
    rw [hw.atOrBelow_iff hd, List.mem_cons, List.mem_flatten]
    refine or_congr_right ⟨?_, ?_⟩
    · rintro ⟨ns, hns, hm⟩
      obtain ⟨c, hc, hrun⟩ := exists_of_forall₂_right hbelow hns
      exact ⟨c, hc, (mem_preorder_iff hw hrun m).mp hm⟩
    · rintro ⟨c, hc, hm⟩
      obtain ⟨ns, hns, hrun⟩ := exists_of_forall₂_left hbelow hc
      exact ⟨ns, hns, (mem_preorder_iff hw hrun m).mpr hm⟩

/-- No walk comes by a node twice: it is not below itself, and not below two children. -/
theorem nodup_preorder (hw : a.WellFormed) : ∀ {fuel n : Nat} {ns : List NodeId},
    a.preorder fuel n = .ok ns → ns.Nodup
  | 0, _, _, h => by cases h
  | fuel + 1, n, _, h => by
    obtain ⟨d, nss, hd, rfl, hbelow⟩ := preorder_succ_eq_ok h
    rw [List.nodup_cons, List.nodup_flatten]
    refine ⟨fun hmem => ?_, fun ns hns => ?_, ?_⟩
    · obtain ⟨ns, hns, hm⟩ := List.mem_flatten.mp hmem
      obtain ⟨c, hc, hrun⟩ := exists_of_forall₂_right hbelow hns
      obtain ⟨-, -, -, hne⟩ := exists_node?_of_listed hw hd hc
      rcases (mem_preorder_iff hw hrun n).mp hm with heq | hanc
      · exact hne heq.symm
      · exact hw.not_ancestor_of_listed hd hc hanc
    · obtain ⟨c, -, hrun⟩ := exists_of_forall₂_right hbelow hns
      exact nodup_preorder hw hrun
    · have hdistinct : d.children.Pairwise fun x y => x.node ≠ y.node :=
        List.pairwise_map.mp (hw.listed_once n d hd)
      refine pairwise_of_forall₂ hbelow hdistinct fun x hx y hy hne xs ys hxs hys => ?_
      refine List.disjoint_left.mpr fun m hmx hmy => hne ?_
      exact hw.eq_of_atOrBelow_children hd hx hy ((mem_preorder_iff hw hxs m).mp hmx)
        ((mem_preorder_iff hw hys m).mp hmy)

/-- A walk comes by as many nodes as the tree has. -/
theorem length_preorder {t : Tree} : ∀ {fuel n : Nat} {ns : List NodeId}, t.IsAt a n →
    a.preorder fuel n = .ok ns → ns.length = t.size := by
  induction t using Tree.induction with
  | h t ih =>
    intro fuel n ns ht h
    cases fuel with
    | zero => cases h
    | succ fuel =>
      obtain ⟨d, nss, hd, rfl, hbelow⟩ := preorder_succ_eq_ok h
      obtain ⟨d', hd', -, hbranches⟩ := Tree.isAt_iff.mp ht
      obtain rfl : d = d' := Option.some.inj (hd.symm.trans hd')
      have hsizes : List.Forall₂ (fun ms (x : RoleId × Tree) => ms.length = x.2.size) nss
          t.branches := by
        refine forall₂_of_common ?_ hbelow ((List.forall₂_and_left _ _).mpr ⟨ih, hbranches⟩).flip
        rintro c ms x hrun ⟨hlength, -, hx⟩
        exact hlength hx hrun
      have hsum : nss.map List.length = t.branches.map fun x => x.2.size :=
        List.forall₂_eq_eq_eq ▸
          List.forall₂_map_left_iff.mpr (List.forall₂_map_right_iff.mpr hsizes)
      rw [List.length_cons, List.length_flatten, hsum, t.size_eq_sum]

theorem exists_preorder_eq_ok {t : Tree} : ∀ {fuel n : Nat}, t.IsAt a n → t.depth ≤ fuel →
    ∃ ns, a.preorder fuel n = .ok ns := by
  induction t using Tree.induction with
  | h t ih =>
    intro fuel n ht hfuel
    obtain ⟨d, hd, -⟩ := Tree.isAt_iff.mp ht
    cases fuel with
    | zero => exact absurd t.depth_pos (Nat.not_lt.mpr hfuel)
    | succ fuel =>
      have hchildren : ∀ c ∈ d.children, ∃ ns, a.preorder fuel c.node = .ok ns := by
        intro c hc
        obtain ⟨x, hmem, hx, hdepth⟩ := ht.exists_branch hd hc
        exact ih x hmem hx (Nat.le_of_lt_succ (Nat.lt_of_lt_of_le hdepth hfuel))
      obtain ⟨nss, hnss⟩ := exists_mapM_eq_ok hchildren
      refine ⟨n :: nss.flatten, ?_⟩
      unfold preorder
      rw [children_of_node? hd]
      simp only [bind, Except.bind, hnss]
      rfl

/-! ### The walk by a stack -/

/-- The children of a node take its place on the stack, the first on top. -/
theorem advance_cons {n : Nat} {d : Node} (hn : a.node? n = some d) (later : List NodeId) :
    a.advance (n :: later) = .ok (some (n, d.children.map (·.node) ++ later)) := by
  have hstack : d.children.reverse.foldl (fun stack c => c.node :: stack) later =
      d.children.map (·.node) ++ later := by
    rw [List.foldl_reverse]
    induction d.children with
    | nil => rfl
    | cons c cs ih => rw [List.foldr_cons, ih, List.map_cons, List.cons_append]
  rw [advance, children_of_node? hn]
  simp only [bind, Except.bind, hstack]
  rfl

theorem collect_cons {n : Nat} {d : Node} (hn : a.node? n = some d) (fuel : Nat)
    (later seen : List NodeId) :
    a.collect (fuel + 1) (n :: later) seen =
      a.collect fuel (d.children.map (·.node) ++ later) (n :: seen) := by
  rw [collect, advance_cons hn]
  rfl

theorem collect_nil (fuel : Nat) (seen : List NodeId) :
    a.collect (fuel + 1) [] seen = .ok seen.reverse := rfl

/-- What is listed for nodes on top of the stack is listed for them one after the other, if it is
so for each of them. -/
theorem collect_of_each {f : NodeId → Except Fault (List NodeId)}
    (h : ∀ (n : NodeId) (ns : List NodeId), f n = .ok ns →
      ∀ (rest : Nat) (later seen : List NodeId),
        a.collect (ns.length + rest) (n :: later) seen = a.collect rest later (ns.reverse ++ seen))
    {cs : ChildList} {nss : List (List NodeId)}
    (hbelow : List.Forall₂ (fun (c : Child) ns => f c.node = .ok ns) cs nss) (rest : Nat)
    (later seen : List NodeId) :
    a.collect (nss.flatten.length + rest) (cs.map (·.node) ++ later) seen =
      a.collect rest later (nss.flatten.reverse ++ seen) := by
  induction hbelow generalizing seen with
  | nil => simp
  | @cons c ns cs nss hc _ ih =>
    rw [List.flatten_cons, List.length_append, Nat.add_assoc, List.map_cons, List.cons_append,
      h c.node ns hc, ih, List.reverse_append, List.append_assoc]

/-- The walk has listed what the recursion lists for the node on top of the stack, in as many
steps, when it comes to what was below it. -/
theorem collect_of_preorder : ∀ (fuel n : Nat) (ns : List NodeId), a.preorder fuel n = .ok ns →
    ∀ (rest : Nat) (later seen : List NodeId),
      a.collect (ns.length + rest) (n :: later) seen = a.collect rest later (ns.reverse ++ seen)
  | 0, _, _, h => by cases h
  | fuel + 1, n, _, h => by
    intro rest later seen
    obtain ⟨d, nss, hd, rfl, hbelow⟩ := preorder_succ_eq_ok h
    rw [List.length_cons, Nat.add_right_comm, collect_cons hd,
      collect_of_each (collect_of_preorder fuel) hbelow, List.reverse_cons, List.append_assoc,
      List.singleton_append]

/-- What the recursion lists are nodes of the arena. -/
theorem lt_size_of_preorder (hw : a.WellFormed) {fuel n m : Nat} {ns : List NodeId}
    (hn : n < a.size) (h : a.preorder fuel n = .ok ns) (hm : m ∈ ns) : m < a.size := by
  rcases (mem_preorder_iff hw h m).mp hm with rfl | habove
  · exact hn
  · obtain ⟨d, p, hd, -⟩ := habove.exists_parent
    exact lt_size_of_node? hd

/-- **The walk by a stack** comes to its end, and lists what the recursion lists. -/
theorem WellFormed.descendants_of_preorder (hw : a.WellFormed) {fuel n : Nat} {ns : List NodeId}
    (hn : n < a.size) (h : a.preorder fuel n = .ok ns) : a.descendants n = .ok ns := by
  have hle : ns.length ≤ a.size :=
    length_le_size_of_nodup (nodup_preorder hw h) fun m hm => lt_size_of_preorder hw hn h hm
  -- one step is left for the empty stack
  have hsteps : a.size + 1 = ns.length + (a.size - ns.length + 1) := by omega
  rw [descendants, hsteps, collect_of_preorder _ _ _ h, collect_nil, List.append_nil,
    List.reverse_reverse]

theorem WellFormed.exists_preorder_eq_descendants (hw : a.WellFormed) {n : Nat} (hn : n < a.size) :
    ∃ ns, a.preorder (a.size + 1) n = .ok ns ∧ a.descendants n = .ok ns := by
  obtain ⟨t, ht⟩ := hw.exists_isAt hn
  obtain ⟨ns, hns⟩ := exists_preorder_eq_ok ht (Nat.le_succ_of_le ht.depth_le_size)
  exact ⟨ns, hns, hw.descendants_of_preorder hn hns⟩

/-- **A walk** from a node of a well-formed arena comes by exactly what is at or below the node. -/
theorem exists_descendants_eq_ok (hw : a.WellFormed) {n : Nat} (hn : n < a.size) :
    ∃ ns, a.descendants n = .ok ns ∧ ∀ m, m ∈ ns ↔ a.AtOrBelow n m := by
  obtain ⟨ns, hrec, hns⟩ := hw.exists_preorder_eq_descendants hn
  exact ⟨ns, hns, mem_preorder_iff hw hrec⟩

end Arena

end SyntaxForest
