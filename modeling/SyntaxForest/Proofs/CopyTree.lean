import SyntaxForest.Arena.Copy
import SyntaxForest.Proofs.Sprout

/-!
# A copy stands for the tree it was made from

A copy is made node by node, by allocating a leaf and linking it below its parent (`sprout`).
While it is being made some of its nodes have all their children, and some are `Pending`: they have
the kind of their original, and no children yet.  Filling in what is below a pending node writes
to that node and to new ones only.

`Copied S pairs b b'` is what is known once the copies of the given pairs have been filled in.  It
speaks of all the arenas that agree with `b'` on the nodes that were written, since the rest of
the copying goes on from there.  Two things put such facts together: doing one pair after the
other (`Copied.cons`), and giving a node its children before each of them has its turn
(`Copied.of_children`).  That is all `copyBelow` does.

The results are `importFrom_of_isAt`, that copying a node that stands for a tree succeeds, the copy
is a new node that stands for the same tree, the records there were are as they were, and a
well-formed arena stays well formed; and `cloneSubtree_eq_importFrom`, that all this holds of copies
within an arena too.  For the second, what is said of the copying is said of all the ways to fetch
a node that find the records of the original (`Reads`): the arena that comes out is one and the
same.
-/

namespace SyntaxForest

namespace Arena

/-- An arena that differs from `b` in records that `a` does not have, still has those of `a`. -/
theorem IsPrefix.of_frame {a b c : Arena} (hab : a.IsPrefix b)
    (h : ∀ i < a.size, c.node? i = b.node? i) : a.IsPrefix c :=
  fun n d hd => by rw [h n (lt_size_of_node? hd), hab n d hd]

end Arena

namespace Edit

open Arena

/-! ### Reading the original -/

/-- In every arena that has the records of `base`, `fetch` finds the records of `S`. -/
def Reads (fetch : NodeId → Edit Node) (S base : Arena) : Prop :=
  ∀ b, base.IsPrefix b → ∀ (m : Nat) (d : Node), S.node? m = some d → fetch m b = .ok d b

theorem reads_settled (S base : Arena) : Reads (fun m => settled (S.node m)) S base := by
  intro b _ m d hd
  show settled (S.node m) b = .ok d b
  rw [node_of_node? hd]
  rfl

theorem reads_look (base : Arena) : Reads (fun m => look (·.node m)) base base :=
  fun _ hb m d hd => look_of_ok (node_of_node? (hb m d hd))

/-! ### Giving a node its children -/

/-- Between `b` and `b'`, `copy` was given a copy of each of the children `cs`. -/
structure ChildrenCopied (S : Arena) (copy : NodeId) (cs : ChildList) (b b' : Arena) : Prop where
  size_eq : b'.size = b.size + cs.length
  frame : ∀ i < b.size, i ≠ copy → b'.node? i = b.node? i
  listed : ∀ e, b.node? copy = some e → b'.node? copy = some { e with
    children := e.children ++ (cs.zipIdx b.size).map fun x => ⟨x.1.role, x.2⟩ }
  leaf : ∀ x ∈ cs.zipIdx b.size, ∀ d, S.node? x.1.node = some d →
    b'.node? x.2 = some { kind := d.kind, parent := some copy }
  wellFormed : b.WellFormed →
    (∀ c ∈ cs, ∀ d, S.node? c.node = some d → c.role.admits d.kind.category = true) →
    (∀ e, b.node? copy = some e → ∀ r : RoleId, r.cardinality = .single →
      (ChildList.allUnder (e.children ++ cs) r).length ≤ 1) → b'.WellFormed
  sprouts : ∀ x : Nat, x ≤ copy → copy < b.size → Sprouts x b b'

theorem ChildrenCopied.nil (S : Arena) (copy : NodeId) (b : Arena) :
    ChildrenCopied S copy [] b b where
  size_eq := rfl
  frame _ _ _ := rfl
  listed e he := by simpa using he
  leaf _ hx := by cases hx
  wellFormed hw _ _ := hw
  sprouts _ _ _ := .refl

/-- One more child in front. -/
theorem ChildrenCopied.cons {S : Arena} {copy : Nat} {c : Child} {cs : ChildList} {d e : Node}
    {b b' : Arena} (hc : S.node? c.node = some d) (he : b.node? copy = some e)
    (h : ChildrenCopied S copy cs (b.sprout copy c.role d.kind) b') :
    ChildrenCopied S copy (c :: cs) b b' where
  size_eq := by
    rw [h.size_eq, size_sprout, List.length_cons]
    omega
  frame i hi hne := by
    rw [h.frame i (by rw [size_sprout]; omega) hne, node?_sprout_of_lt _ _ _ hi hne]
  listed x hx := by
    obtain rfl : e = x := Option.some.inj (he.symm.trans hx)
    rw [h.listed _ (node?_sprout_self c.role d.kind he), size_sprout, List.zipIdx_cons,
      List.map_cons, List.append_assoc]
    rfl
  leaf x hx f hf := by
    have hne : b.size ≠ copy := Nat.ne_of_gt (lt_size_of_node? he)
    rw [List.zipIdx_cons] at hx
    rcases List.mem_cons.mp hx with rfl | hx
    · -- the new leaf is not written to when the others are made
      obtain rfl : d = f := Option.some.inj (hc.symm.trans hf)
      rw [h.frame _ (by rw [size_sprout]; omega) hne]
      exact node?_sprout_new c.role d.kind he
    · rw [← size_sprout c.role d.kind b copy] at hx
      exact h.leaf x hx f hf
  wellFormed hw hadm hsingle := by
    refine h.wellFormed (wellFormed_sprout hw he (hadm c List.mem_cons_self d hc) ?_)
      (fun x hx => hadm x (List.mem_cons_of_mem _ hx)) ?_
    · -- the role labels the new entry, so it labels none of those that were there
      intro hs
      have hle := hsingle e he c.role hs
      rw [ChildList.allUnder_append, ChildList.allUnder_cons, if_pos rfl, List.length_append,
        List.length_cons] at hle
      exact ChildList.allUnder_eq_nil_iff.mp (List.eq_nil_of_length_eq_zero (by omega))
    · intro x hx r hs
      obtain rfl := Option.some.inj ((node?_sprout_self c.role d.kind he).symm.trans hx)
      have hle := hsingle e he r hs
      simp only [ChildList.allUnder_append, ChildList.allUnder_cons] at hle ⊢
      split_ifs at hle ⊢ <;> simpa [ChildList.allUnder, Nat.add_assoc, Nat.add_comm 1] using hle
  sprouts x hx hlt := by
    have hfirst : Sprouts x b (b.sprout copy c.role d.kind) := Sprouts.refl.sprout hx hlt _ _
    exact hfirst.trans (h.sprouts x hx (by rw [size_sprout]; exact Nat.lt_succ_of_lt hlt))

/-- The copies of the children are the next nodes of the arena, in order, however the children are
fetched. -/
theorem copyChildren_of_lt {S base : Arena} {copy : Nat} (hcopy : base.size ≤ copy) :
    ∀ {cs : ChildList} {b : Arena} {e : Node}, base.IsPrefix b → b.node? copy = some e →
      (∀ c ∈ cs, ∃ d, S.node? c.node = some d) →
      ∃ b', (∀ fetch, Reads fetch S base → copyChildren fetch copy cs b =
          .ok ((cs.zipIdx b.size).map fun x => (x.1.node, x.2)) b') ∧
        ChildrenCopied S copy cs b b'
  | [], b, _, _, _, _ => ⟨b, fun _ _ => rfl, .nil S copy b⟩
  | c :: cs, b, e, hbase, he, hcs => by
    obtain ⟨d, hd⟩ := hcs c List.mem_cons_self
    have hnext : base.IsPrefix (b.sprout copy c.role d.kind) :=
      hbase.of_frame fun i hi => node?_sprout_of_lt _ _ _
        (Nat.lt_of_lt_of_le hi hbase.size_le) (by omega)
    obtain ⟨b', hrest, hcopied⟩ := copyChildren_of_lt hcopy hnext
      (node?_sprout_self c.role d.kind he) fun x hx => hcs x (List.mem_cons_of_mem _ hx)
    refine ⟨b', fun fetch hreads => ?_, hcopied.cons hd he⟩
    have hrest := hrest fetch hreads
    rw [size_sprout] at hrest
    rw [copyChildren, bind_of_ok (hreads b hbase _ d hd), bind_of_ok (alloc_apply d.kind b)]
    show (copyChildren fetch copy cs >>= _ : Edit _) (b.sprout copy c.role d.kind) = _
    rw [bind_of_ok hrest, List.zipIdx_cons]
    rfl

/-! ### Filling in what is below -/

/-- The node `x` has the kind of `n` in the original, and no children yet. -/
def Pending (S : Arena) (n : NodeId) (b : Arena) (x : NodeId) : Prop :=
  ∃ d p, S.node? n = some d ∧ b.node? x = some { kind := d.kind, parent := p }

/-- Between `b` and `b'`, the second node of each pair was given all that is below the first. -/
structure Copied (S : Arena) (pairs : List (NodeId × NodeId)) (b b' : Arena) : Prop where
  size_le : b.size ≤ b'.size
  frame : ∀ i < b.size, i ∉ pairs.map (·.2) → b'.node? i = b.node? i
  tree : ∀ p ∈ pairs, ∀ (t : Tree) (c : Arena), t.IsAt S p.1 →
    (∀ i d, i ∈ pairs.map (·.2) ∨ b.size ≤ i → b'.node? i = some d → c.node? i = some d) →
    t.IsAt c p.2
  wellFormed : S.WellFormed → b.WellFormed → b'.WellFormed
  sprouts : ∀ x : Nat, (∀ p ∈ pairs, x ≤ p.2 ∧ p.2 < b.size) → Sprouts x b b'
  /-- There is a new node for every node below the first of a pair. -/
  size_eq : ∀ ts : List Tree, List.Forall₂ (fun p t => t.IsAt S p.1) pairs ts →
    b'.size + pairs.length = b.size + (ts.map Tree.size).sum

theorem Copied.nil (S b : Arena) : Copied S [] b b where
  size_le := Nat.le_refl _
  frame _ _ _ := rfl
  tree _ hp := by cases hp
  wellFormed _ hw := hw
  sprouts _ _ := .refl
  size_eq ts hts := by
    cases hts
    rfl

/-- The order of the pairs says when they were filled in, not what came out. -/
theorem Copied.of_reverse {S : Arena} {pairs : List (NodeId × NodeId)} {b b' : Arena}
    (h : Copied S pairs.reverse b b') : Copied S pairs b b' where
  size_le := h.size_le
  frame i hi hne := h.frame i hi (by rwa [List.map_reverse, List.mem_reverse])
  tree p hp t c ht hc := h.tree p (List.mem_reverse.mpr hp) t c ht fun i d hi =>
    hc i d (by rwa [List.map_reverse, List.mem_reverse] at hi)
  wellFormed := h.wellFormed
  sprouts x hx := h.sprouts x fun p hp => hx p (List.mem_reverse.mp hp)
  size_eq ts hts := by
    have hsum := h.size_eq ts.reverse (List.forall₂_reverse_iff.mpr hts)
    rwa [List.length_reverse, List.map_reverse, List.sum_reverse] at hsum

/-- One pair, and then the others. -/
theorem Copied.cons {S : Arena} {p : NodeId × NodeId} {pairs : List (NodeId × NodeId)}
    {b b₁ b' : Arena} (hfirst : Copied S [p] b b₁) (hrest : Copied S pairs b₁ b')
    (hnew : p.2 ∉ pairs.map (·.2)) (hold : ∀ q ∈ pairs, q.2 < b.size) :
    Copied S (p :: pairs) b b' where
  size_le := Nat.le_trans hfirst.size_le hrest.size_le
  frame i hi hne := by
    rw [List.map_cons, List.mem_cons, not_or] at hne
    rw [hrest.frame i (Nat.lt_of_lt_of_le hi hfirst.size_le) hne.2,
      hfirst.frame i hi (by simpa using hne.1)]
  tree q hq t c ht hc := by
    rcases List.mem_cons.mp hq with rfl | hq
    · -- what was written for the first pair is not written to again
      refine hfirst.tree q List.mem_cons_self t c ht fun i d hi hd => ?_
      have hout : i ∉ pairs.map (·.2) := by
        rcases hi with hi | hi
        · rwa [List.mem_singleton.mp hi]
        · intro hmem
          obtain ⟨x, hx, rfl⟩ := List.mem_map.mp hmem
          exact absurd (hold x hx) (Nat.not_lt.mpr hi)
      refine hc i d ?_ (by rw [hrest.frame i (lt_size_of_node? hd) hout, hd])
      exact hi.imp_left fun hi => by simp [List.mem_singleton.mp hi]
    · refine hrest.tree q hq t c ht fun i d hi hd => hc i d ?_ hd
      rcases hi with hi | hi
      · exact .inl (List.mem_cons_of_mem _ hi)
      · exact .inr (Nat.le_trans hfirst.size_le hi)
  wellFormed hS hw := hrest.wellFormed hS (hfirst.wellFormed hS hw)
  sprouts x hx := by
    refine (hfirst.sprouts x fun q hq => hx q ?_).trans (hrest.sprouts x fun q hq => ?_)
    · rw [List.mem_singleton.mp hq]
      exact List.mem_cons_self
    · have hq' := hx q (List.mem_cons_of_mem _ hq)
      exact ⟨hq'.1, Nat.lt_of_lt_of_le hq'.2 hfirst.size_le⟩
  size_eq ts hts := by
    cases hts with
    | @cons _ t _ ts ht hts =>
      have hone := hfirst.size_eq [t] (.cons ht .nil)
      have hothers := hrest.size_eq ts hts
      simp only [List.map_cons, List.sum_cons, List.length_cons, List.map_nil, List.sum_nil,
        List.length_nil] at hone ⊢
      omega

theorem forall₂_zipIdx {S c : Arena} {ts : List (RoleId × Tree)} {cs : ChildList}
    (h : List.Forall₂ (fun t x => x.role = t.1 ∧ t.2.IsAt S x.node) ts cs) :
    ∀ {k : Nat}, (∀ x ∈ cs.zipIdx k, ∀ t : Tree, t.IsAt S x.1.node → t.IsAt c x.2) →
      List.Forall₂ (fun (t : RoleId × Tree) (x : Child) => x.role = t.1 ∧ t.2.IsAt c x.node) ts
        ((cs.zipIdx k).map fun x => ⟨x.1.role, x.2⟩) := by
  induction h with
  | nil => intro k _; exact .nil
  | cons hx _ ih =>
    intro k hcopied
    rw [List.zipIdx_cons, List.map_cons]
    rw [List.zipIdx_cons] at hcopied
    exact .cons ⟨hx.1, hcopied _ List.mem_cons_self _ hx.2⟩
      (ih fun x hmem => hcopied x (List.mem_cons_of_mem _ hmem))

/-- All the children, and then what is below each of them. -/
theorem Copied.of_children {S : Arena} {n copy : Nat} {d : Node} {b b₁ b' : Arena}
    (hn : S.node? n = some d) (hpending : Pending S n b copy)
    (hchildren : ChildrenCopied S copy d.children b b₁)
    (hbelow : Copied S ((d.children.zipIdx b.size).map fun x => (x.1.node, x.2)) b₁ b') :
    Copied S [(n, copy)] b b' := by
  obtain ⟨d', p, hd', hcopy⟩ := hpending
  obtain rfl : d = d' := Option.some.inj (hn.symm.trans hd')
  have hsize : b.size ≤ b₁.size := by rw [hchildren.size_eq]; omega
  -- the children of the copy are new nodes, so their turns leave the old nodes alone
  have hnew : ∀ i < b.size,
      i ∉ ((d.children.zipIdx b.size).map fun x => (x.1.node, x.2)).map (·.2) := by
    intro i hi hmem
    obtain ⟨x, hx, rfl⟩ := List.mem_map.mp hmem
    obtain ⟨y, hy, rfl⟩ := List.mem_map.mp hx
    have hle : b.size ≤ y.2 := List.le_snd_of_mem_zipIdx hy
    exact absurd hi (Nat.not_lt.mpr hle)
  refine ⟨Nat.le_trans hsize hbelow.size_le, fun i hi hne => ?_, ?_, fun hS hw => ?_,
    fun x hx => ?_, fun ts hts => ?_⟩
  · rw [hbelow.frame i (Nat.lt_of_lt_of_le hi hsize) (hnew i hi),
      hchildren.frame i hi (by simpa using hne)]
  · intro q hq t c ht hc
    obtain rfl := List.mem_singleton.mp hq
    obtain ⟨d', hd', hkind, hts⟩ := Tree.isAt_iff.mp ht
    obtain rfl : d = d' := Option.some.inj (hn.symm.trans hd')
    have hlt := lt_size_of_node? hcopy
    have hlisted := hchildren.listed _ hcopy
    rw [← hbelow.frame copy (Nat.lt_of_lt_of_le hlt hsize) (hnew copy hlt)] at hlisted
    refine Tree.isAt_iff.mpr ⟨_, hc copy _ (.inl (by simp)) hlisted, hkind, ?_⟩
    rw [List.nil_append]
    refine forall₂_zipIdx hts fun x hx u hu => ?_
    refine hbelow.tree (x.1.node, x.2) (List.mem_map.mpr ⟨x, hx, rfl⟩) u c hu fun i f hi hf => ?_
    refine hc i f (.inr ?_) hf
    rcases hi with hi | hi
    · exact Nat.not_lt.mp fun hlt => hnew i hlt hi
    · exact Nat.le_trans hsize hi
  · refine hbelow.wellFormed hS (hchildren.wellFormed hw ?_ ?_)
    · exact fun x hx f hf => hS.admitted n d x f hn hx hf
    · intro e he r hs
      obtain rfl := Option.some.inj (hcopy.symm.trans he)
      exact hS.single_once n d r hn hs
  · obtain ⟨hxcopy, hlt⟩ : x ≤ copy ∧ copy < b.size := hx _ List.mem_cons_self
    refine (hchildren.sprouts x hxcopy hlt).trans (hbelow.sprouts x fun p hp => ?_)
    obtain ⟨y, hy, rfl⟩ := List.mem_map.mp hp
    have hle : b.size ≤ y.2 := List.le_snd_of_mem_zipIdx hy
    have hlast : y.2 < b.size + d.children.length := List.snd_lt_add_of_mem_zipIdx hy
    exact ⟨by omega, by rw [hchildren.size_eq]; exact hlast⟩
  · obtain ⟨t, us, ht, hnil, rfl⟩ := List.forall₂_cons_left_iff.mp hts
    cases hnil
    obtain ⟨d', hd', -, hbranches⟩ := Tree.isAt_iff.mp ht
    obtain rfl : d = d' := Option.some.inj (hn.symm.trans hd')
    have hpairs : List.Forall₂ (fun (y : Child × Nat) (x : RoleId × Tree) => x.2.IsAt S y.1.node)
        (d.children.zipIdx b.size) t.branches := by
      have hfst := (hbranches.imp fun _ _ h => h.2).flip
      rw [← List.zipIdx_map_fst b.size d.children, List.forall₂_map_left_iff] at hfst
      exact hfst
    have hsum := hbelow.size_eq (t.branches.map (·.2))
      (List.forall₂_map_left_iff.mpr (List.forall₂_map_right_iff.mpr hpairs))
    have hone := t.size_eq_sum
    rw [hchildren.size_eq, List.length_map, List.length_zipIdx, List.map_map] at hsum
    simp only [List.map_cons, List.sum_cons, List.length_cons, List.map_nil, List.sum_nil,
      List.length_nil, Function.comp_def] at hsum ⊢
    omega

/-! ### The whole copy -/

section Run

variable {S base : Arena}

/-- What the copying starts from: the records to be read are there, the pairs are of different new
nodes that are pending, and what is to be copied below each is at most `fuel` levels deep. -/
structure Ready (S base : Arena) (fuel : Nat) (pairs : List (NodeId × NodeId)) (b : Arena) :
    Prop where
  isPrefix : base.IsPrefix b
  nodup : (pairs.map (·.2)).Nodup
  new : ∀ p ∈ pairs, base.size ≤ p.2
  pending : ∀ p ∈ pairs, Pending S p.1 b p.2
  tree : ∀ p ∈ pairs, ∃ t : Tree, t.IsAt S p.1 ∧ t.depth ≤ fuel

theorem Pending.lt_size {n : Nat} {b : Arena} {x : Nat} (h : Pending S n b x) : x < b.size := by
  obtain ⟨d, p, -, hx⟩ := h
  exact lt_size_of_node? hx

theorem Ready.reverse {fuel : Nat} {pairs : List (NodeId × NodeId)} {b : Arena}
    (h : Ready S base fuel pairs b) : Ready S base fuel pairs.reverse b where
  isPrefix := h.isPrefix
  nodup := by rw [List.map_reverse]; exact List.nodup_reverse.mpr h.nodup
  new p hp := h.new p (List.mem_reverse.mp hp)
  pending p hp := h.pending p (List.mem_reverse.mp hp)
  tree p hp := h.tree p (List.mem_reverse.mp hp)

/-- After the first pair had its turn, the others can have theirs. -/
theorem Ready.tail {fuel : Nat} {p : NodeId × NodeId} {pairs : List (NodeId × NodeId)}
    {b b₁ : Arena} (h : Ready S base fuel (p :: pairs) b) (hfirst : Copied S [p] b b₁) :
    Ready S base fuel pairs b₁ where
  isPrefix := by
    refine h.isPrefix.of_frame fun i hi => ?_
    have hnew := h.new p List.mem_cons_self
    refine hfirst.frame i (Nat.lt_of_lt_of_le hi h.isPrefix.size_le) fun hmem => ?_
    rw [List.mem_singleton.mp hmem] at hi
    exact absurd hi (Nat.not_lt.mpr hnew)
  nodup := (List.nodup_cons.mp h.nodup).2
  new q hq := h.new q (List.mem_cons_of_mem _ hq)
  pending q hq := by
    have hpending := h.pending q (List.mem_cons_of_mem _ hq)
    have hne : q.2 ∉ [p].map (·.2) := fun hmem =>
      (List.nodup_cons.mp h.nodup).1 (List.mem_map.mpr ⟨q, hq, List.mem_singleton.mp hmem⟩)
    have hframe := hfirst.frame q.2 hpending.lt_size hne
    obtain ⟨d, x, hd, hx⟩ := hpending
    exact ⟨d, x, hd, hframe.trans hx⟩
  tree q hq := h.tree q (List.mem_cons_of_mem _ hq)

/-- The children of a node that was given copies of them are ready for their turns. -/
theorem Ready.of_children {fuel n copy : Nat} {d : Node} {t : Tree} {b b₁ : Arena}
    (hn : S.node? n = some d) (ht : t.IsAt S n) (hdepth : t.depth ≤ fuel + 1)
    (hbase : base.IsPrefix b) (hcopy : base.size ≤ copy)
    (hchildren : ChildrenCopied S copy d.children b b₁) :
    Ready S base fuel ((d.children.zipIdx b.size).map fun x => (x.1.node, x.2)) b₁ := by
  have htree : ∀ c ∈ d.children, ∃ u : Tree, u.IsAt S c.node ∧ u.depth ≤ fuel := by
    intro c hc
    obtain ⟨x, -, hx, hlt⟩ := ht.exists_branch hn hc
    exact ⟨x.2, hx, Nat.le_of_lt_succ (Nat.lt_of_lt_of_le hlt hdepth)⟩
  have hmem : ∀ p ∈ (d.children.zipIdx b.size).map fun x => (x.1.node, x.2),
      ∃ x ∈ d.children.zipIdx b.size, x.1 ∈ d.children ∧ b.size ≤ x.2 ∧ p = (x.1.node, x.2) := by
    intro p hp
    obtain ⟨x, hx, rfl⟩ := List.mem_map.mp hp
    exact ⟨x, hx, List.fst_mem_of_mem_zipIdx hx, List.le_snd_of_mem_zipIdx hx, rfl⟩
  refine ⟨?_, ?_, fun p hp => ?_, fun p hp => ?_, fun p hp => ?_⟩
  · exact hbase.of_frame fun i hi =>
      hchildren.frame i (Nat.lt_of_lt_of_le hi hbase.size_le) (by omega)
  · rw [List.map_map]
    show ((d.children.zipIdx b.size).map Prod.snd).Nodup
    rw [List.zipIdx_map_snd]
    exact List.nodup_range'
  · obtain ⟨x, -, -, hle, rfl⟩ := hmem p hp
    exact Nat.le_trans hbase.size_le hle
  · obtain ⟨x, hx, hc, -, rfl⟩ := hmem p hp
    obtain ⟨u, hu, -⟩ := htree x.1 hc
    obtain ⟨f, hf, -⟩ := Tree.isAt_iff.mp hu
    exact ⟨f, some copy, hf, hchildren.leaf x hx f hf⟩
  · obtain ⟨x, -, hc, -, rfl⟩ := hmem p hp
    exact htree x.1 hc

/-- Filling in pairs one after the other, given that each of them can be filled in. -/
theorem copyEach_of_ready {fuel : Nat}
    (hstep : ∀ (p : NodeId × NodeId) (b : Arena), Ready S base fuel [p] b →
      ∃ b', (∀ fetch, Reads fetch S base → copyBelow fetch fuel p.1 p.2 b = .ok () b') ∧
        Copied S [p] b b') :
    ∀ {pairs : List (NodeId × NodeId)} {b : Arena}, Ready S base fuel pairs b →
      ∃ b', (∀ fetch, Reads fetch S base →
          (pairs.forM fun p => copyBelow fetch fuel p.1 p.2) b = .ok () b') ∧ Copied S pairs b b'
  | [], b, _ => ⟨b, fun _ _ => rfl, .nil S b⟩
  | p :: pairs, b, h => by
    obtain ⟨b₁, hrun, hfirst⟩ := hstep p b
      ⟨h.isPrefix, List.nodup_singleton _, fun q hq => h.new q (by simp_all),
        fun q hq => h.pending q (by simp_all), fun q hq => h.tree q (by simp_all)⟩
    obtain ⟨b', hruns, hrest⟩ := copyEach_of_ready hstep (h.tail hfirst)
    refine ⟨b', fun fetch hreads => ?_, hfirst.cons hrest (List.nodup_cons.mp h.nodup).1
      fun q hq => (h.pending q (List.mem_cons_of_mem _ hq)).lt_size⟩
    show (copyBelow fetch fuel p.1 p.2 >>= _ : Edit Unit) b = _
    rw [bind_of_ok (hrun fetch hreads)]
    exact hruns fetch hreads

/-- **Filling in** what is below a pending node.  The induction is on the fuel, which bounds the
depth of what is left to copy. -/
theorem copyBelow_of_ready :
    ∀ {fuel : Nat} (p : NodeId × NodeId) (b : Arena), Ready S base fuel [p] b →
      ∃ b', (∀ fetch, Reads fetch S base → copyBelow fetch fuel p.1 p.2 b = .ok () b') ∧
        Copied S [p] b b'
  | 0, p, b, h => by
    obtain ⟨t, -, hdepth⟩ := h.tree p List.mem_cons_self
    exact absurd t.depth_pos (Nat.not_lt.mpr hdepth)
  | fuel + 1, (n, copy), b, h => by
    obtain ⟨t, ht, hdepth⟩ := h.tree _ List.mem_cons_self
    have hpending := h.pending _ List.mem_cons_self
    have hcopy := h.new _ List.mem_cons_self
    obtain ⟨d, q, hn, hx⟩ := id hpending
    have hlisted : ∀ c ∈ d.children, ∃ e, S.node? c.node = some e := by
      intro c hc
      obtain ⟨x, -, hx, -⟩ := ht.exists_branch hn hc
      exact exists_node?_of_lt hx.lt_size
    obtain ⟨b₁, hrun, hchildren⟩ := copyChildren_of_lt hcopy h.isPrefix hx hlisted
    have hready := Ready.of_children hn ht hdepth h.isPrefix hcopy hchildren
    -- the children have their turns from the last to the first
    obtain ⟨b', hruns, hbelow⟩ := copyEach_of_ready copyBelow_of_ready hready.reverse
    refine ⟨b', fun fetch hreads => ?_, .of_children hn hpending hchildren hbelow.of_reverse⟩
    rw [copyBelow, bind_of_ok (hreads b h.isPrefix n d hn), bind_of_ok (hrun fetch hreads)]
    exact hruns fetch hreads

/-- **Copying** a node that stands for a tree succeeds; the copy is the next node, and stands for
the same tree.  What comes out does not depend on how the nodes of the original are fetched. -/
theorem copyTree_of_isAt {a : Arena} {n fuel : Nat} {t : Tree} (ht : t.IsAt S n)
    (hdepth : t.depth ≤ fuel) :
    ∃ b, (∀ fetch, Reads fetch S a → copyTree fetch fuel n a = .ok a.size b) ∧ a.IsPrefix b ∧
      t.IsAt b a.size ∧
      (S.WellFormed → a.WellFormed → b.WellFormed) ∧ b.size = a.size + t.size ∧
        b.LiesAt t a.size ∧ (a.Closed → b.Closed) := by
  obtain ⟨d, hn, -⟩ := Tree.isAt_iff.mp ht
  have hready : Ready S a fuel [(n, a.size)] (a.push d.kind) := by
    refine ⟨isPrefix_push a d.kind, List.nodup_singleton _, ?_, ?_, ?_⟩ <;>
      intro p hp <;> obtain rfl := List.mem_singleton.mp hp
    · exact Nat.le_refl _
    · exact ⟨d, none, hn, node?_push_self a d.kind⟩
    · exact ⟨t, ht, hdepth⟩
  obtain ⟨b, hrun, hcopied⟩ := copyBelow_of_ready _ _ hready
  have htree : t.IsAt b a.size := hcopied.tree _ List.mem_cons_self t b ht fun _ _ _ hd => hd
  have hsize : b.size = a.size + t.size := by
    have hsum := hcopied.size_eq [t] (.cons ht .nil)
    simp only [size_push, List.map_cons, List.sum_cons, List.length_cons, List.map_nil,
      List.sum_nil, List.length_nil] at hsum
    omega
  have hsprouts : Sprouts a.size (a.push d.kind) b := by
    refine hcopied.sprouts a.size fun p hp => ?_
    rw [List.mem_singleton.mp hp, size_push]
    exact ⟨Nat.le_refl _, Nat.lt_succ_self _⟩
  have hsprouted : b.Sprouted a.size := (Sprouted.push a d.kind).of_sprouts hsprouts
  refine ⟨b, fun fetch hreads => ?_, ?_, htree,
    fun hS ha => hcopied.wellFormed hS (wellFormed_push ha d.kind), hsize, ⟨htree, fun m => ?_⟩,
    fun ha => (ha.push d.kind).sprouts hsprouts⟩
  · rw [copyTree, bind_of_ok (hreads a (.refl a) n d hn), bind_of_ok (alloc_apply d.kind a),
      bind_of_ok (hrun fetch hreads)]
    rfl
  · refine (isPrefix_push a d.kind).of_frame fun i hi => ?_
    exact hcopied.frame i (by rw [size_push]; omega) (by simp; omega)
  · rw [hsprouted.reaches_iff htree.lt_size, hsize]

end Run

theorem importFrom_of_isAt {S : Arena} {n : Nat} {t : Tree} (ht : t.IsAt S n) (a : Arena) :
    ∃ b, importFrom S n a = .ok a.size b ∧ a.IsPrefix b ∧ t.IsAt b a.size ∧
      (S.WellFormed → a.WellFormed → b.WellFormed) ∧ b.size = a.size + t.size ∧
        b.LiesAt t a.size ∧ (a.Closed → b.Closed) := by
  obtain ⟨b, hrun, hcopied⟩ := copyTree_of_isAt ht (Nat.le_succ_of_le ht.depth_le_size)
  exact ⟨b, hrun _ (reads_settled S a), hcopied⟩

section ImportFrom

variable {S a b : Arena} {n x : Nat} {t : Tree} (ht : t.IsAt S n)

include ht

theorem isPrefix_of_importFrom (h : importFrom S n a = .ok x b) : a.IsPrefix b := by
  obtain ⟨b', hrun, hprefix, -⟩ := importFrom_of_isAt ht a
  cases hrun.symm.trans h
  exact hprefix

theorem liesAt_of_importFrom (h : importFrom S n a = .ok x b) : b.LiesAt t x := by
  obtain ⟨b', hrun, -, -, -, -, hlies, -⟩ := importFrom_of_isAt ht a
  cases hrun.symm.trans h
  exact hlies

theorem size_of_importFrom (h : importFrom S n a = .ok x b) : b.size = a.size + t.size := by
  obtain ⟨b', hrun, -, -, -, hsize, -⟩ := importFrom_of_isAt ht a
  cases hrun.symm.trans h
  exact hsize

theorem closed_of_importFrom (ha : a.Closed) (h : importFrom S n a = .ok x b) : b.Closed := by
  obtain ⟨b', hrun, -, -, -, -, -, hclosed⟩ := importFrom_of_isAt ht a
  cases hrun.symm.trans h
  exact hclosed ha

end ImportFrom

/-- A copy within the arena reads from the arena that it extends, but nothing that it reads has
changed by then: it is the copy out of the arena as it was. -/
theorem cloneSubtree_of_isAt {a : Arena} {n : Nat} {t : Tree} (ht : t.IsAt a n) :
    cloneSubtree n a = importFrom a n a := by
  obtain ⟨b, hrun, -⟩ := copyTree_of_isAt (a := a) ht (Nat.le_succ_of_le ht.depth_le_size)
  have hclone : cloneSubtree n a = .ok a.size b := hrun _ (reads_look a)
  have himport : importFrom a n a = .ok a.size b := hrun _ (reads_settled a a)
  rw [hclone, himport]

/-- An id outside the arena is noticed before anything is allocated. -/
theorem importFrom_of_none {S : Arena} {n : Nat} (hn : S.node? n = none) (a : Arena) :
    importFrom S n a = .error (.outOfRange S.size n) a := by
  have hfetch : (settled (S.node n) : Edit Node) a = .error (.outOfRange S.size n) a := by
    rw [node, hn]
    rfl
  rw [importFrom, copyTree, bind_of_error hfetch]

theorem cloneSubtree_of_none {a : Arena} {n : Nat} (hn : a.node? n = none) :
    cloneSubtree n a = .error (.outOfRange a.size n) a := by
  have hfetch : look (·.node n) a = .error (.outOfRange a.size n) a :=
    look_of_error (by rw [node, hn])
  show copyTree (fun m => look (·.node m)) (a.size + 1) n a = _
  rw [copyTree, bind_of_error hfetch]

theorem keeps_importFrom {S : Arena} (hS : S.WellFormed) (n : NodeId) :
    Keeps WellFormed (importFrom S n) := by
  intro a hw
  cases hn : S.node? n with
  | none => rwa [after_of_error (importFrom_of_none hn a)]
  | some d =>
    obtain ⟨t, ht⟩ := hS.exists_isAt (lt_size_of_node? hn)
    obtain ⟨b, hrun, -, -, hwf, -⟩ := importFrom_of_isAt ht a
    rw [after_of_ok hrun]
    exact hwf hS hw

/-- **Two ways to copy**: a copy within a well-formed arena and a copy out of a snapshot of it are
the same, with the same ids, and fail alike. -/
theorem cloneSubtree_eq_importFrom {a : Arena} (hw : a.WellFormed) (n : NodeId) :
    cloneSubtree n a = importFrom a n a := by
  cases hn : a.node? n with
  | none => rw [cloneSubtree_of_none hn, importFrom_of_none hn]
  | some d =>
    obtain ⟨t, ht⟩ := hw.exists_isAt (lt_size_of_node? hn)
    exact cloneSubtree_of_isAt ht

theorem keeps_cloneSubtree (n : NodeId) : Keeps WellFormed (cloneSubtree n) := by
  intro a hw
  rw [after, cloneSubtree_eq_importFrom hw n]
  exact keeps_importFrom hw n a hw

end Edit

end SyntaxForest
