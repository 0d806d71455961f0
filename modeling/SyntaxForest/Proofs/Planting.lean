import SyntaxForest.Proofs.Reachable

/-!
# Planting a tree

Which trees do the nodes of well-formed arenas stand for?  Roles choose what they take, and some
take a single child only.  A tree is `Admissible` if it minds both, all the way down.  The trees in
well-formed arenas do (`WellFormed.admissible`), and they are the only ones that have to: every
admissible tree can be planted, by allocating nodes and attaching them (`exists_reachable_isAt`).

A tree is planted from its root.  While it grows, its root has the trees that were planted so far
below it (`Growing`).  Planting the next one takes place among new nodes; then its root is attached,
which changes nothing about the trees that are there already, since they do not contain the node
that receives it (`Tree.IsAt.link`).
-/

namespace SyntaxForest

/-! ### Admissible trees -/

/-- Everywhere in the tree, the roles take the trees under them, and a role for a single child comes
once. -/
inductive Tree.Admissible : Tree → Prop
  | intro {t : Tree} (hadmits : ∀ x ∈ t.branches, x.1.admits x.2.kind.category = true)
    (hsingle : ∀ r : RoleId, r.cardinality = .single → (t.branches.map (·.1)).count r ≤ 1)
    (hbelow : ∀ x ∈ t.branches, Admissible x.2) : Admissible t

theorem ChildList.length_allUnder (cs : ChildList) (r : RoleId) :
    (cs.allUnder r).length = (cs.map (·.role)).count r := by
  rw [allUnder, List.length_map, List.count, List.countP_map, List.countP_eq_length_filter]
  rfl

namespace Arena

variable {a b : Arena}

/-- The roles at the root of a tree are those of the children. -/
theorem roles_of_areAt {ts : List (RoleId × Tree)} {cs : ChildList}
    (h : List.Forall₂ (fun x c => c.role = x.1 ∧ x.2.IsAt a c.node) ts cs) :
    ts.map (·.1) = cs.map (·.role) := by
  induction h with
  | nil => rfl
  | cons hx _ ih => rw [List.map_cons, List.map_cons, ih, hx.1]

theorem WellFormed.admissible (hw : a.WellFormed) {t : Tree} :
    ∀ {n : Nat}, t.IsAt a n → t.Admissible := by
  induction t using Tree.induction with
  | h t ih =>
    intro n ht
    obtain ⟨d, hd, -, hbelow⟩ := Tree.isAt_iff.mp ht
    refine .intro (fun x hx => ?_) (fun r hr => ?_) fun x hx => ?_
    · obtain ⟨c, hc, hrole, hat⟩ := exists_of_forall₂_left hbelow hx
      obtain ⟨e, he, hkind, -⟩ := Tree.isAt_iff.mp hat
      rw [← hrole, ← hkind]
      exact hw.admitted n d c e hd hc he
    · rw [roles_of_areAt hbelow, ← ChildList.length_allUnder]
      exact hw.single_once n d r hd hr
    · obtain ⟨c, -, -, hat⟩ := exists_of_forall₂_left hbelow hx
      exact ih x hx hat

end Arena

/-! ### Attaching -/

/-- Attaching a child to a root changes no tree but the one of that root. -/
theorem Tree.IsAt.link {a : Arena} (hw : a.WellFormed) {n : Nat} {d : Node}
    (hn : a.node? n = some d) (hroot : d.parent = none) (r : RoleId) (c : NodeId) {t : Tree} :
    ∀ {m : Nat}, t.IsAt a m → m ≠ n → t.IsAt (a.link n r c) m := by
  induction t using Tree.induction with
  | h t ih =>
    intro m ht hne
    obtain ⟨e, he, hkind, hbelow⟩ := Tree.isAt_iff.mp ht
    have hrecord : ∃ e', (a.link n r c).node? m = some e' ∧ e'.kind = e.kind ∧
        e'.children = e.children := by
      rw [Arena.link, Arena.node?_setParent, Arena.node?_setChildren, if_neg (Ne.symm hne), he]
      split_ifs
      · exact ⟨_, rfl, rfl, rfl⟩
      · exact ⟨_, rfl, rfl, rfl⟩
    obtain ⟨e', he', hkind', hchildren⟩ := hrecord
    refine Tree.isAt_iff.mpr ⟨e', he', hkind'.trans hkind, ?_⟩
    rw [hchildren]
    -- a root is nobody's child, so the trees below do not contain it either
    have hother : ∀ x ∈ e.children, x.node ≠ n := fun x hx hxn =>
      Arena.not_listed_of_root hw hn hroot he (List.mem_map.mpr ⟨x, hx, hxn⟩)
    have hall := (List.forall₂_and_left _ _).mpr ⟨hother, hbelow.flip⟩
    refine ((List.forall₂_and_left _ _).mpr ⟨ih, hall.flip⟩).imp ?_
    rintro x y ⟨hlink, hxn, hrole, hx⟩
    exact ⟨hrole, hlink hx hxn⟩

/-- There is a call that attaches a root to another root, at the end of its children. -/
theorem exists_call_link {a : Arena} {n c : Nat} {d e : Node} {r : RoleId}
    (hn : a.node? n = some d) (hnroot : d.parent = none) (hc : a.node? c = some e)
    (hroot : e.parent = none) (hadm : r.admits e.kind.category = true) (hne : c ≠ n)
    (hnew : r.cardinality = .single → r ∉ d.children.map (·.role)) :
    ∃ call : Call, call.Apt a ∧ call.after a = a.link n r c := by
  have hcheck := Arena.checkAttach_of_root hn hnroot hc hroot hadm hne
  cases hcard : r.cardinality with
  | single =>
    refine ⟨.setChild n r (some c), trivial, ?_⟩
    have hempty := ChildList.firstUnder?_eq_none_iff.mpr (hnew hcard)
    have hlast : ChildList.insertBefore ⟨r, c⟩ none d.children = d.children ++ [⟨r, c⟩] := by
      have happend : ChildList.insertBefore ⟨r, c⟩ none (d.children ++ []) =
          d.children ++ ChildList.insertBefore ⟨r, c⟩ none [] :=
        ChildList.insertBefore_append _ _ (by simp)
      rwa [List.append_nil] at happend
    have hrun : Edit.setChild n r (some c) a = .ok none (a.link n r c) := by
      rw [Edit.setChild, if_neg (by simp [RoleId.isMany, hcard])]
      rw [Edit.bind_of_ok (Edit.look_of_ok (Arena.child?_of_node? hn r)), hempty, if_neg (by simp),
        Edit.bind_of_ok (Edit.look_of_ok hcheck), Edit.putChild_of_empty hn hempty, hlast,
        Arena.link_eq_relink hn]
    exact Edit.after_of_ok hrun
  | many =>
    refine ⟨.addChild n r c, trivial, ?_⟩
    have hrun : Edit.addChild n r c a = .ok () (a.link n r c) := by
      rw [Edit.addChild, if_pos (by simp [RoleId.isMany, hcard]),
        Edit.bind_of_ok (Edit.look_of_ok hcheck)]
      rfl
    exact Edit.after_of_ok hrun

namespace Arena

variable {a b : Arena} {k : Kind} {n : Nat} {ts : List (RoleId × Tree)}

/-! ### A tree that grows -/

/-- The arena `b` has a root `n` of kind `k` with the given trees below it, and otherwise the
records of `a` and new ones. -/
structure Growing (a : Arena) (k : Kind) (ts : List (RoleId × Tree)) (b : Arena) (n : NodeId) :
    Prop where
  reachable : b.Reachable
  isPrefix : a.IsPrefix b
  new : a.size ≤ n
  root : ∃ cs, b.node? n = some { kind := k, children := cs } ∧
    List.Forall₂ (fun x c => c.role = x.1 ∧ x.2.IsAt b c.node) ts cs

theorem Growing.isAt {t : Tree} (h : Growing a t.kind t.branches b n) : t.IsAt b n := by
  obtain ⟨cs, hn, hbelow⟩ := h.root
  exact Tree.isAt_iff.mpr ⟨_, hn, rfl, hbelow⟩

theorem growing_push (ha : a.Reachable) (k : Kind) : Growing a k [] (a.push k) a.size where
  reachable := .call (.alloc k) ha
  isPrefix := isPrefix_push a k
  new := Nat.le_refl _
  root := ⟨[], node?_push_self a k, .nil⟩

/-- The tree can be planted in every reachable arena. -/
def Plantable (t : Tree) : Prop :=
  ∀ ⦃a : Arena⦄, a.Reachable → ∃ b n, Growing a t.kind t.branches b n

/-- **One branch more.** -/
theorem Growing.branch (h : Growing a k ts b n) {x : RoleId × Tree} (hx : Plantable x.2)
    (hadm : x.1.admits x.2.kind.category = true)
    (hnew : x.1.cardinality = .single → x.1 ∉ ts.map (·.1)) :
    ∃ b', Growing a k (ts ++ [x]) b' n := by
  obtain ⟨cs, hn, hbelow⟩ := h.root
  obtain ⟨b₁, c, hgrown⟩ := hx h.reachable
  obtain ⟨cs', hc, -⟩ := hgrown.root
  have hn₁ := hgrown.isPrefix n _ hn
  have hne : c ≠ n := Nat.ne_of_gt (Nat.lt_of_lt_of_le (lt_size_of_node? hn) hgrown.new)
  obtain ⟨call, hapt, hcall⟩ := exists_call_link (r := x.1) hn₁ rfl hc rfl hadm hne
    (by rwa [← roles_of_areAt hbelow])
  have hw := hgrown.reachable.wellFormed
  refine ⟨b₁.link n x.1 c, hcall ▸ .call call hgrown.reachable hapt, ?_, h.new,
    cs ++ [⟨x.1, c⟩], ?_, ?_⟩
  · -- the two nodes that are written to are new
    have hc_new : a.size ≤ c := Nat.le_trans h.isPrefix.size_le hgrown.new
    have hn_new := h.new
    intro m d hd
    have hm := lt_size_of_node? hd
    rw [node?_link_of_ne b₁ x.1 (by omega) (by omega)]
    exact hgrown.isPrefix m d (h.isPrefix m d hd)
  · rw [link_eq_relink hn₁]
    exact node?_relink_self hn₁ hne _ _
  · have hothers : ∀ y ∈ cs, y.node ≠ n := fun y hy hyn =>
      not_listed_of_root h.reachable.wellFormed hn rfl hn (List.mem_map.mpr ⟨y, hy, hyn⟩)
    have hall := (List.forall₂_and_left _ _).mpr ⟨hothers, hbelow.flip⟩
    refine List.rel_append (hall.flip.imp fun y z hyz => ?_) (.cons ⟨rfl, ?_⟩ .nil)
    · exact ⟨hyz.2.1, (hyz.2.2.mono hgrown.isPrefix).link hw hn₁ rfl _ _ hyz.1⟩
    · exact hgrown.isAt.link hw hn₁ rfl _ _ hne

/-- **All branches**, one after the other. -/
theorem Growing.branches {us : List (RoleId × Tree)} : ∀ {ts : List (RoleId × Tree)} {b : Arena},
    Growing a k ts b n → (∀ x ∈ us, Plantable x.2 ∧ x.1.admits x.2.kind.category = true) →
    (∀ r : RoleId, r.cardinality = .single → ((ts ++ us).map (·.1)).count r ≤ 1) →
      ∃ b', Growing a k (ts ++ us) b' n := by
  induction us with
  | nil => exact fun {_ b} h _ _ => ⟨b, by rwa [List.append_nil]⟩
  | cons x us ih =>
    intro ts b h hus hsingle
    obtain ⟨hx, hadm⟩ := hus x List.mem_cons_self
    have hnew : x.1.cardinality = .single → x.1 ∉ ts.map (·.1) := by
      intro hcard hmem
      have hcount := hsingle x.1 hcard
      have hpos := List.count_pos_iff.mpr hmem
      rw [List.map_append, List.count_append, List.map_cons, List.count_cons_self] at hcount
      omega
    obtain ⟨b₁, h₁⟩ := h.branch hx hadm hnew
    obtain ⟨b', h'⟩ := ih h₁ (fun y hy => hus y (List.mem_cons_of_mem _ hy))
      (by simpa using hsingle)
    exact ⟨b', by simpa using h'⟩

theorem plantable_of_admissible {t : Tree} (ht : t.Admissible) : Plantable t := by
  induction ht with
  | @intro t hadmits hsingle _ ih =>
    intro a ha
    have hall : ∀ x ∈ t.branches, Plantable x.2 ∧ x.1.admits x.2.kind.category = true :=
      fun x hx => ⟨ih x hx, hadmits x hx⟩
    obtain ⟨b, hb⟩ := (growing_push ha t.kind).branches hall (by simpa using hsingle)
    exact ⟨b, a.size, by simpa using hb⟩

/-- **Planting**: every admissible tree stands in some arena that a user can make. -/
theorem exists_reachable_isAt {t : Tree} (ht : t.Admissible) :
    ∃ a n, Reachable a ∧ t.IsAt a n := by
  obtain ⟨b, n, hb⟩ := plantable_of_admissible ht .empty
  exact ⟨b, n, hb.reachable, hb.isAt⟩

end Arena

end SyntaxForest
