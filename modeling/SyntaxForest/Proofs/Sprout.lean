import SyntaxForest.Proofs.Denotation
import SyntaxForest.Proofs.EditForest
import SyntaxForest.Proofs.Walk

/-!
# Arenas that grow leaf by leaf

`sprout` allocates a node and links it below another one.  An arena that grows by sprouting alone
(`Sprouts`), and below new nodes only, has its new nodes in one piece: the first of them reaches
exactly the ids from its own up to the end (`Sprouted.reaches_iff`).  This holds because the parent
of a new node is older than the node and lists it, so going up ends at the first new node.

`Reaches` goes down child lists.  It is the sense of "below" that matters to the tree at a node, in
every arena; in a well-formed arena it is the same as going up parent links
(`WellFormed.reaches_iff`).  A node that stands for a tree reaches nothing new when the arena grows
(`reaches_iff_of_isPrefix`).  When the arena is cut off, it stands for the tree as before if all
that it reaches comes before the cut (`isAt_cut`), and for no tree at all otherwise
(`lt_of_isAt_cut`).  A tree that `LiesAt` a node takes the ids from the node on, as many as it
has nodes.
-/

namespace SyntaxForest

namespace Arena

/-! ### A new leaf -/

/-- Allocate a node and link it below `n`. -/
def sprout (a : Arena) (n : NodeId) (r : RoleId) (k : Kind) : Arena :=
  (a.push k).link n r a.size

section Sprout

variable {a : Arena} {n : Nat} {e : Node} (r : RoleId) (k : Kind)

@[simp] theorem size_sprout (a : Arena) (n : NodeId) : (a.sprout n r k).size = a.size + 1 := by
  rw [sprout, size_link, size_push]

theorem node?_sprout_of_lt (n : Nat) {m : Nat} (hm : m < a.size) (hne : m ≠ n) :
    (a.sprout n r k).node? m = a.node? m := by
  rw [sprout, node?_link_of_ne _ _ hne (Nat.ne_of_lt hm), node?_push_of_ne _ _ (Nat.ne_of_lt hm)]

theorem node?_sprout_self (hn : a.node? n = some e) :
    (a.sprout n r k).node? n = some { e with children := e.children ++ [⟨r, a.size⟩] } := by
  have hne : a.size ≠ n := Nat.ne_of_gt (lt_size_of_node? hn)
  rw [sprout, link_eq_relink (node?_push_of_some hn)]
  exact node?_relink_self (node?_push_of_some hn) hne _ _

theorem node?_sprout_new (hn : a.node? n = some e) :
    (a.sprout n r k).node? a.size = some { kind := k, parent := some n } := by
  have hne : n ≠ a.size := Nat.ne_of_lt (lt_size_of_node? hn)
  rw [sprout, link, node?_setParent, if_pos rfl, node?_setChildren, if_neg hne, node?_push_self]
  rfl

variable {r k}

/-- The records there are then: the parent has one entry more, and the rest is as before. -/
theorem eq_of_node?_sprout {m : Nat} {d : Node} (hn : a.node? n = some e)
    (hd : (a.sprout n r k).node? m = some d) :
    (m = n ∧ d = { e with children := e.children ++ [⟨r, a.size⟩] }) ∨
      (m = a.size ∧ d = { kind := k, parent := some n }) ∨ a.node? m = some d := by
  have hm := lt_size_of_node? hd
  rw [size_sprout] at hm
  by_cases hmn : m = n
  · subst hmn
    exact .inl ⟨rfl, Option.some.inj (hd.symm.trans (node?_sprout_self r k hn))⟩
  · by_cases hma : m = a.size
    · subst hma
      exact .inr (.inl ⟨rfl, Option.some.inj (hd.symm.trans (node?_sprout_new r k hn))⟩)
    · exact .inr (.inr (by rw [← node?_sprout_of_lt r k n (by omega) hmn, hd]))

theorem wellFormed_sprout (hw : a.WellFormed) (hn : a.node? n = some e)
    (hadm : r.admits k.category = true)
    (hsingle : r.cardinality = .single → r ∉ e.children.map (·.role)) :
    (a.sprout n r k).WellFormed :=
  wellFormed_link (wellFormed_push hw k)
    (attachable_of_leaf (wellFormed_push hw k) (node?_push_of_some hn) (node?_push_self a k) rfl rfl
      hadm (Nat.ne_of_gt (lt_size_of_node? hn)))
    (node?_push_of_some hn) hsingle

end Sprout

/-- The arena `b` grows into another one by sprouting below nodes from `x` on. -/
inductive Sprouts (x : Nat) (b : Arena) : Arena → Prop
  | refl : Sprouts x b b
  | sprout {c : Arena} {n : Nat} (h : Sprouts x b c) (hx : x ≤ n) (hn : n < c.size) (r : RoleId)
    (k : Kind) : Sprouts x b (c.sprout n r k)

theorem Sprouts.trans {x : Nat} {a b c : Arena} (hab : Sprouts x a b) (hbc : Sprouts x b c) :
    Sprouts x a c := by
  induction hbc with
  | refl => exact hab
  | sprout _ hx hn r k ih => exact ih.sprout hx hn r k

/-! ### Going down -/

/-- Following child lists from `n` leads to the node. -/
inductive Reaches (a : Arena) (n : Nat) : Nat → Prop
  | refl : Reaches a n n
  | child {m : Nat} {d : Node} {c : Child} (h : Reaches a n m) (hm : a.node? m = some d)
    (hc : c ∈ d.children) : Reaches a n c.node

section Reaches

variable {a b : Arena} {n m x : Nat} {t u : Tree}

theorem Reaches.trans (hxn : a.Reaches x n) (hnm : a.Reaches n m) : a.Reaches x m := by
  induction hnm with
  | refl => exact hxn
  | child _ hm hc ih => exact ih.child hm hc

theorem Reaches.mono (hab : a.IsPrefix b) (h : a.Reaches n m) : b.Reaches n m := by
  induction h with
  | refl => exact .refl
  | child _ hm hc ih => exact ih.child (hab _ _ hm) hc

/-- What is reached from a node that stands for a tree stands for a tree. -/
theorem Reaches.exists_isAt (h : a.Reaches n m) (ht : t.IsAt a n) : ∃ u : Tree, u.IsAt a m := by
  induction h with
  | refl => exact ⟨t, ht⟩
  | child _ hm hc ih =>
    obtain ⟨u, hu⟩ := ih
    obtain ⟨x, -, hx, -⟩ := hu.exists_branch hm hc
    exact ⟨x.2, hx⟩

/-- A node that stands for a tree reaches nothing new when the arena grows. -/
theorem reaches_iff_of_isPrefix (hab : a.IsPrefix b) (ht : t.IsAt a n) :
    b.Reaches n m ↔ a.Reaches n m := by
  refine ⟨fun h => ?_, .mono hab⟩
  induction h with
  | refl => exact .refl
  | child _ hm hc ih =>
    obtain ⟨u, hu⟩ := ih.exists_isAt ht
    obtain ⟨d, hd, -⟩ := Tree.isAt_iff.mp hu
    obtain rfl := Option.some.inj ((hab _ _ hd).symm.trans hm)
    exact ih.child hd hc

theorem isPrefix_cut (a : Arena) (c : Nat) : (a.cut c).IsPrefix a := by
  intro m d hd
  rw [node?_cut] at hd
  split_ifs at hd
  exact hd

/-- An arena that has grown is cut off where the new records begin. -/
theorem IsPrefix.cut_eq (hab : a.IsPrefix b) : b.cut a.size = a := by
  refine ext_node? fun i => ?_
  rw [node?_cut]
  split_ifs with hi
  · obtain ⟨d, hd⟩ := exists_node?_of_lt hi
    rw [hd, hab i d hd]
  · exact (node?_eq_none_iff.mpr (Nat.not_lt.mp hi)).symm

/-! ### Links across a cut -/

/-- No link leads from a record before the cut to one behind it. -/
def LinksStayBelow (a : Arena) (cut : Nat) : Prop :=
  ∀ (n : Nat) (d : Node), n < cut → a.node? n = some d →
    (∀ p : Nat, d.parent = some p → p < cut) ∧ ∀ c ∈ d.children, c.node < cut

/-- What is asked for before a cut is that no link crosses it. -/
theorem linksStayBelow_iff {cut : Nat} :
    a.linksStayBelow cut = true ↔ a.LinksStayBelow cut := by
  have hmem : ∀ d, d ∈ a.nodes.toList.take cut ↔ ∃ n, n < cut ∧ a.node? n = some d := by
    intro d
    rw [List.mem_iff_getElem?]
    refine exists_congr fun n => ?_
    rw [List.getElem?_take, Array.getElem?_toList, ← node?]
    split_ifs with h <;> simp [h]
  unfold linksStayBelow LinksStayBelow
  simp only [List.all_eq_true, Bool.and_eq_true, Option.all_eq_true, decide_eq_true_eq, hmem]
  constructor
  · exact fun h n d hn hd => h d ⟨n, hn, hd⟩
  · rintro h d ⟨n, hn, hd⟩
    exact h n d hn hd

theorem size_cut (a : Arena) (c : Nat) : (a.cut c).size = min c a.size := by
  simp [cut, size]

/-- The links of the arena stay inside it. -/
def Closed (a : Arena) : Prop := a.LinksStayBelow a.size

theorem closed_empty : empty.Closed := fun _ _ h => absurd h (Nat.not_lt_zero _)

theorem WellFormed.closed (hw : a.WellFormed) : a.Closed := by
  intro n d _ hd
  exact ⟨fun p hp => hw.parent_lt n p d hd hp, fun c hc => hw.child_lt n d c hd hc⟩

/-- The old records of an arena that has grown know nothing of the new ones. -/
theorem Closed.linksStayBelow (ha : a.Closed) (hab : a.IsPrefix b) : b.LinksStayBelow a.size := by
  intro n d hn hd
  obtain ⟨e, he⟩ := exists_node?_of_lt hn
  obtain rfl := Option.some.inj ((hab n e he).symm.trans hd)
  exact ha n e hn he

/-- If no link crosses the cut, none is loose after it. -/
theorem Closed.cut {cut : Nat} (ha : a.Closed) (h : a.LinksStayBelow cut) : (a.cut cut).Closed := by
  intro n d hn hd
  have hold := isPrefix_cut a cut n d hd
  rw [size_cut] at hn ⊢
  obtain ⟨hparent, hchildren⟩ := h n d (by omega) hold
  obtain ⟨hparent', hchildren'⟩ := ha n d (by omega) hold
  exact ⟨fun p hp => Nat.lt_min.mpr ⟨hparent p hp, hparent' p hp⟩,
    fun c hc => Nat.lt_min.mpr ⟨hchildren c hc, hchildren' c hc⟩⟩

/-- If no link crosses the cut, what it leaves is still a forest. -/
theorem WellFormed.cut {cut : Nat} (hw : a.WellFormed) (h : a.LinksStayBelow cut) :
    (a.cut cut).WellFormed := by
  have hold := isPrefix_cut a cut
  have hclosed := hw.closed.cut h
  constructor
  case parent_lt => exact fun n p d hd hp => (hclosed n d (lt_size_of_node? hd) hd).1 p hp
  case child_lt => exact fun n d c hd hc => (hclosed n d (lt_size_of_node? hd) hd).2 c hc
  case listed_iff => exact fun n p d e hd he => hw.listed_iff n p d e (hold n d hd) (hold p e he)
  case listed_once => exact fun p e he => hw.listed_once p e (hold p e he)
  case acyclic =>
    exact fun n hn => hw.acyclic n (hn.of_parents fun m d p hd hp => ⟨d, hold m d hd, hp⟩)
  case single_once => exact fun p e r he => hw.single_once p e r (hold p e he)
  case admitted =>
    exact fun p e c d he hc hd => hw.admitted p e c d (hold p e he) hc (hold c.node d hd)

theorem Closed.push (ha : a.Closed) (k : Kind) : (a.push k).Closed := by
  intro m d hm hd
  rw [size_push] at hm ⊢
  rw [node?_push] at hd
  split_ifs at hd with hnew
  · cases hd
    exact ⟨nofun, nofun⟩
  · obtain ⟨hparent, hchildren⟩ := ha m d (by omega) hd
    exact ⟨fun p hp => Nat.lt_succ_of_lt (hparent p hp),
      fun c hc => Nat.lt_succ_of_lt (hchildren c hc)⟩

/-- A new leaf and its parent are both there. -/
theorem Closed.sprouts {x : Nat} (ha : a.Closed) (hab : Sprouts x a b) : b.Closed := by
  induction hab with
  | refl => exact ha
  | @sprout c n _ _ hn r k ih =>
    obtain ⟨e, he⟩ := exists_node?_of_lt hn
    intro m d _ hd
    rw [size_sprout]
    rcases eq_of_node?_sprout he hd with ⟨rfl, rfl⟩ | ⟨rfl, rfl⟩ | hold
    · obtain ⟨hparent, hchildren⟩ := ih m e hn he
      refine ⟨fun p hp => Nat.lt_succ_of_lt (hparent p hp), fun ch hch => ?_⟩
      rcases List.mem_append.mp hch with hch | hch
      · exact Nat.lt_succ_of_lt (hchildren ch hch)
      · rw [List.mem_singleton.mp hch]
        exact Nat.lt_succ_self _
    · refine ⟨fun p hp => ?_, nofun⟩
      cases hp
      exact Nat.lt_succ_of_lt hn
    · obtain ⟨hparent, hchildren⟩ := ih m d (lt_size_of_node? hold) hold
      exact ⟨fun p hp => Nat.lt_succ_of_lt (hparent p hp),
        fun ch hch => Nat.lt_succ_of_lt (hchildren ch hch)⟩

/-- A tree is not touched by a cut behind all its nodes. -/
theorem isAt_cut {c : Nat} :
    ∀ {n : Nat}, t.IsAt a n → (∀ m, a.Reaches n m → m < c) → t.IsAt (a.cut c) n := by
  induction t using Tree.induction with
  | h t ih =>
    intro n ht hc
    obtain ⟨d, hd, hkind, hbelow⟩ := Tree.isAt_iff.mp ht
    have hn : (a.cut c).node? n = some d := by
      rw [node?_cut, if_pos (hc n .refl), hd]
    refine Tree.isAt_iff.mpr ⟨d, hn, hkind, ?_⟩
    refine List.forall₂_iff_zip.mpr ⟨hbelow.length_eq, fun {x ch} hmem => ?_⟩
    obtain ⟨hx, hch⟩ := List.of_mem_zip hmem
    obtain ⟨hrole, htree⟩ := List.forall₂_zip hbelow hmem
    have hfirst : a.Reaches n ch.node := Reaches.refl.child hd hch
    exact ⟨hrole, ih x hx htree fun m hm => hc m (hfirst.trans hm)⟩

/-- A node that still stands for a tree after a cut reaches nothing behind the cut. -/
theorem lt_of_isAt_cut {c : Nat} (ht : t.IsAt (a.cut c) n) (h : a.Reaches n m) :
    m < c := by
  have hcut := (reaches_iff_of_isPrefix (isPrefix_cut a c) ht).mp h
  obtain ⟨u, hu⟩ := hcut.exists_isAt ht
  obtain ⟨d, hd, -⟩ := Tree.isAt_iff.mp hu
  rw [node?_cut] at hd
  by_contra hle
  rw [if_neg hle] at hd
  cases hd

/-- In a well-formed arena, going down child lists and going up parent links is the same. -/
theorem WellFormed.reaches_iff (hw : a.WellFormed) (hn : n < a.size) :
    a.Reaches n m ↔ a.AtOrBelow n m := by
  constructor
  · intro h
    induction h with
    | refl => exact .refl a n
    | child _ hm hc ih => exact ih.trans (hw.atOrBelow_child hm hc)
  · -- what has `p` for a parent is listed by `p`
    have hlisted : ∀ {m p : Nat} {d : Node}, a.node? m = some d → d.parent = some p →
        a.Reaches n p → a.Reaches n m := by
      intro m p d hd hp h
      obtain ⟨e, he⟩ := exists_node?_of_lt (hw.parent_lt m p d hd hp)
      obtain ⟨c, hc, rfl⟩ := List.mem_map.mp ((hw.listed_iff m p d e hd he).mpr hp)
      exact h.child he hc
    rintro (rfl | h)
    · exact .refl
    · induction h with
      | parent hm hp => exact hlisted hm hp .refl
      | above hm hp _ ih => exact hlisted hm hp ih

/-- Nothing new gets below an old node when the arena grows. -/
theorem WellFormed.atOrBelow_iff_of_isPrefix (ha : a.WellFormed) (hb : b.WellFormed)
    (hab : a.IsPrefix b) (hn : n < a.size) : b.AtOrBelow n m ↔ a.AtOrBelow n m := by
  obtain ⟨t, ht⟩ := ha.exists_isAt hn
  rw [← hb.reaches_iff (Nat.lt_of_lt_of_le hn hab.size_le), ← ha.reaches_iff hn,
    reaches_iff_of_isPrefix hab ht]

/-- The first node of what is added in one piece has no parent: a new node is below it, and an old
one lists old nodes only. -/
theorem WellFormed.parent_eq_none_of_block (ha : a.WellFormed) (hb : b.WellFormed)
    (hab : a.IsPrefix b) (hblock : ∀ n : Nat, b.AtOrBelow a.size n ↔ a.size ≤ n ∧ n < b.size)
    {d : Node} (hd : b.node? a.size = some d) : d.parent = none := by
  by_contra hparent
  obtain ⟨p, hp⟩ := Option.ne_none_iff_exists'.mp hparent
  have hplt := hb.parent_lt a.size p d hd hp
  by_cases hnew : a.size ≤ p
  · rcases (hblock p).mpr ⟨hnew, hplt⟩ with rfl | hbelow
    · exact hb.acyclic _ (.parent hd hp)
    · exact hb.acyclic _ (.above hd hp hbelow)
  · obtain ⟨e, he⟩ := exists_node?_of_lt (Nat.not_le.mp hnew)
    obtain ⟨c, hc, hself⟩ := List.mem_map.mp ((hb.listed_iff a.size p d e hd (hab p e he)).mpr hp)
    exact Nat.ne_of_lt (ha.child_lt p e c he hc) hself

end Reaches

/-! ### Where a tree lies -/

/-- The node stands for the tree, and what it reaches are the ids from its own on, as many as the
tree has nodes. -/
structure LiesAt (a : Arena) (t : Tree) (n : Nat) : Prop where
  isAt : t.IsAt a n
  reaches_iff : ∀ m : Nat, a.Reaches n m ↔ n ≤ m ∧ m < n + t.size

/-! ### Nodes that have sprouted -/

/-- From `x` on, the nodes list younger nodes of the arena only, and each of them but the first is
listed by an older one. -/
structure Sprouted (a : Arena) (x : Nat) : Prop where
  younger : ∀ (n : Nat) (d : Node) (c : Child), x ≤ n → a.node? n = some d → c ∈ d.children →
    n < c.node ∧ c.node < a.size
  listed : ∀ i : Nat, x < i → i < a.size →
    ∃ (n : Nat) (d : Node) (c : Child), x ≤ n ∧ a.node? n = some d ∧ c ∈ d.children ∧ c.node = i

namespace Sprouted

variable {a b : Arena} {x n : Nat}

/-- One new node has no links at all. -/
theorem push (a : Arena) (k : Kind) : (a.push k).Sprouted a.size where
  younger n d c hn hd hc := by
    rw [node?_push] at hd
    split_ifs at hd with hnew
    · cases hd
      cases hc
    · have := lt_size_of_node? hd
      omega
  listed i hx hi := by
    rw [size_push] at hi
    omega

theorem sprout (h : a.Sprouted x) (hx : x ≤ n) (hn : n < a.size) (r : RoleId) (k : Kind) :
    (a.sprout n r k).Sprouted x := by
  obtain ⟨e, he⟩ := exists_node?_of_lt hn
  have hself := node?_sprout_self r k he
  constructor
  · intro m d c hm hd hc
    rw [size_sprout]
    rcases eq_of_node?_sprout he hd with ⟨rfl, rfl⟩ | ⟨-, rfl⟩ | hd
    · rcases List.mem_append.mp hc with hc | hc
      · have hold := h.younger m e c hm he hc
        exact ⟨hold.1, Nat.lt_succ_of_lt hold.2⟩
      · obtain rfl := List.mem_singleton.mp hc
        exact ⟨hn, Nat.lt_succ_self _⟩
    · cases hc
    · have hold := h.younger m d c hm hd hc
      exact ⟨hold.1, Nat.lt_succ_of_lt hold.2⟩
  · intro i hxi hi
    rw [size_sprout] at hi
    by_cases hlt : i < a.size
    · obtain ⟨m, d, c, hm, hd, hc, rfl⟩ := h.listed i hxi hlt
      by_cases hmn : m = n
      · subst hmn
        obtain rfl := Option.some.inj (hd.symm.trans he)
        exact ⟨m, _, c, hm, hself, List.mem_append_left _ hc, rfl⟩
      · have hm' := node?_sprout_of_lt r k n (lt_size_of_node? hd) hmn
        exact ⟨m, d, c, hm, hm'.trans hd, hc, rfl⟩
    · obtain rfl : i = a.size := by omega
      exact ⟨n, _, ⟨r, a.size⟩, hx, hself, by simp, rfl⟩

theorem of_sprouts (h : a.Sprouted x) (hab : Sprouts x a b) : b.Sprouted x := by
  induction hab with
  | refl => exact h
  | sprout _ hx hn r k ih => exact ih.sprout hx hn r k

/-- **In one piece**: the first of the nodes reaches all the others, and nothing else. -/
theorem reaches_iff (h : a.Sprouted x) (hx : x < a.size) (m : Nat) :
    a.Reaches x m ↔ x ≤ m ∧ m < a.size := by
  constructor
  · intro hm
    induction hm with
    | refl => exact ⟨Nat.le_refl x, hx⟩
    | child _ hm hc ih =>
      have hyounger := h.younger _ _ _ ih.1 hm hc
      exact ⟨Nat.le_trans ih.1 (Nat.le_of_lt hyounger.1), hyounger.2⟩
  · induction m using Nat.strong_induction_on with
    | _ m ih =>
      rintro ⟨hxm, hm⟩
      rcases Nat.eq_or_lt_of_le hxm with rfl | hlt
      · exact .refl
      · -- the node that lists `m` is older, so it has been reached
        obtain ⟨n, d, c, hn, hd, hc, rfl⟩ := h.listed m hlt hm
        have hyounger := h.younger n d c hn hd hc
        exact (ih n hyounger.1 ⟨hn, lt_size_of_node? hd⟩).child hd hc

end Sprouted

end Arena

end SyntaxForest
