import Mathlib.Data.List.Nodup
import SyntaxForest.Proofs.Reading

/-!
# Linking and unlinking keep a forest

All edits of links come down to one change of two records: the node `n` gets the child list `cs`,
and the node `c` gets the parent `p` (`relink`).  There are two uses of it that keep an arena well
formed:

* `wellFormed_relink_some`: a root is put anywhere into the child list of a node that is neither
  the root itself nor below it, under a role that takes it;
* `wellFormed_relink_none`: an entry is taken out of a child list and becomes a root.

Putting a node in the place of another is the one after the other (`wellFormed_relink_relink`).

The part that needs an argument is that no cycle arises.  A chain of parent links in the arena
after the first change either was there before, or leads from below `c` through the new link to
`n` and on upwards (`ancestor_relink_some`); the second change only removes a link
(`ancestor_relink_none`).
-/

namespace SyntaxForest

theorem RoleId.cardinality_of_isMany_false {r : RoleId} (h : r.isMany = false) :
    r.cardinality = .single := by
  cases hcard : r.cardinality with
  | single => rfl
  | many => simp [RoleId.isMany, hcard] at h

/-! ### Child lists taken apart -/

namespace ChildList

theorem firstUnder?_eq_none_iff {cs : ChildList} {r : RoleId} :
    cs.firstUnder? r = none ↔ r ∉ cs.map (·.role) := by
  simp [firstUnder?, List.find?_eq_none]

/-- The first child under a role stands behind entries of other roles. -/
theorem exists_of_firstUnder? {cs : ChildList} {r : RoleId} {o : NodeId}
    (h : cs.firstUnder? r = some o) :
    ∃ before after, cs = before ++ ⟨r, o⟩ :: after ∧ r ∉ before.map (·.role) := by
  unfold firstUnder? at h
  rw [Option.map_eq_some_iff] at h
  obtain ⟨x, hx, rfl⟩ := h
  rw [List.find?_eq_some_iff_append] at hx
  obtain ⟨hrole, before, after, rfl, hbefore⟩ := hx
  have hr : x.role = r := by simpa using hrole
  refine ⟨before, after, by rw [← hr], ?_⟩
  intro hmem
  obtain ⟨y, hy, hyr⟩ := List.mem_map.mp hmem
  simpa [hyr] using hbefore y hy

/-- Entries of other roles do not get in the way. -/
theorem firstUnder?_append {before after : ChildList} {r : RoleId} (n : NodeId)
    (h : r ∉ before.map (·.role)) :
    firstUnder? (before ++ ⟨r, n⟩ :: after) r = some n := by
  rw [firstUnder?, List.find?_append, List.find?_eq_none.mpr]
  · simp
  · intro x hx
    simp only [decide_eq_true_eq]
    intro hxr
    exact h (List.mem_map.mpr ⟨x, hx, hxr⟩)

theorem replaceUnder_append {before after : ChildList} {r : RoleId} {o : NodeId} (n : NodeId)
    (h : r ∉ before.map (·.role)) :
    replaceUnder r n (before ++ ⟨r, o⟩ :: after) = before ++ ⟨r, n⟩ :: after := by
  induction before with
  | nil => simp [replaceUnder]
  | cons x before ih =>
    simp only [List.map_cons, List.mem_cons, not_or] at h
    rw [List.cons_append, replaceUnder, if_neg (Ne.symm h.1), ih h.2, List.cons_append]

theorem eraseUnder_append {before after : ChildList} {r : RoleId} {o : NodeId}
    (h : r ∉ before.map (·.role)) :
    eraseUnder (before ++ ⟨r, o⟩ :: after) r = before ++ after := by
  unfold eraseUnder
  rw [List.eraseP_append_right, List.eraseP_cons_of_pos (by simp)]
  intro x hx
  simp only [decide_eq_true_eq]
  intro hxr
  exact h (List.mem_map.mpr ⟨x, hx, hxr⟩)

/-- A list that has `n` at one place only is taken apart there. -/
theorem split?_append {before after : ChildList} {r : RoleId} {n : NodeId}
    (h : n ∉ before.map (·.node)) :
    split? n (before ++ ⟨r, n⟩ :: after) = some (before, r, after) := by
  induction before with
  | nil => simp [split?]
  | cons x before ih =>
    simp only [List.map_cons, List.mem_cons, not_or] at h
    rw [List.cons_append, split?, if_neg (Ne.symm h.1), ih h.2]
    rfl

/-- Entries that are not the anchor are passed over. -/
theorem insertBefore_append {anchor : Option NodeId} {before : ChildList} (entry : Child)
    (after : ChildList) (h : ∀ x ∈ before, anchor ≠ some x.node) :
    insertBefore entry anchor (before ++ after) = before ++ insertBefore entry anchor after := by
  induction before with
  | nil => rfl
  | cons x before ih =>
    rw [List.cons_append, insertBefore, if_neg (h x List.mem_cons_self),
      ih fun y hy => h y (List.mem_cons_of_mem _ hy), List.cons_append]

/-- Inserting takes the list apart at some point and puts the entry there. -/
theorem exists_insertBefore (entry : Child) (anchor : Option NodeId) (cs : ChildList) :
    ∃ before after, cs = before ++ after ∧
      insertBefore entry anchor cs = before ++ entry :: after := by
  induction cs with
  | nil => exact ⟨[], [], rfl, rfl⟩
  | cons x cs ih =>
    unfold insertBefore
    split_ifs
    · exact ⟨[], x :: cs, rfl, rfl⟩
    · obtain ⟨before, after, rfl, hins⟩ := ih
      exact ⟨x :: before, after, rfl, by rw [hins, List.cons_append]⟩

/-- An entry under another role does not get in the way. -/
theorem firstUnder?_insertBefore_of_ne {entry : Child} {r : RoleId} (h : entry.role ≠ r)
    (anchor : Option NodeId) (cs : ChildList) :
    firstUnder? (insertBefore entry anchor cs) r = cs.firstUnder? r := by
  obtain ⟨before, after, rfl, hins⟩ := exists_insertBefore entry anchor cs
  rw [hins]
  simp [firstUnder?, List.find?_append, h]

theorem mem_allUnder_iff {cs : ChildList} {r : RoleId} {n : NodeId} :
    n ∈ cs.allUnder r ↔ (⟨r, n⟩ : Child) ∈ cs := by
  unfold allUnder
  simp only [List.mem_map, List.mem_filter, decide_eq_true_eq]
  constructor
  · rintro ⟨x, ⟨hx, rfl⟩, rfl⟩
    exact hx
  · intro h
    exact ⟨_, ⟨h, rfl⟩, rfl⟩

theorem mem_of_firstUnder? {cs : ChildList} {r : RoleId} {n : NodeId}
    (h : cs.firstUnder? r = some n) : (⟨r, n⟩ : Child) ∈ cs := by
  obtain ⟨before, after, rfl, -⟩ := exists_of_firstUnder? h
  simp

theorem allUnder_eq_nil_iff {cs : ChildList} {r : RoleId} :
    cs.allUnder r = [] ↔ r ∉ cs.map (·.role) := by
  simp [allUnder, List.filter_eq_nil_iff]

theorem allUnder_append (cs ds : ChildList) (r : RoleId) :
    allUnder (cs ++ ds) r = cs.allUnder r ++ ds.allUnder r := by
  simp [allUnder]

theorem allUnder_cons (x : Child) (cs : ChildList) (r : RoleId) :
    allUnder (x :: cs) r = if x.role = r then x.node :: cs.allUnder r else cs.allUnder r := by
  unfold allUnder
  rw [List.filter_cons]
  split_ifs <;> simp_all

end ChildList

namespace Arena

/-! ### Ancestors -/

namespace Ancestor

variable {a : Arena} {x y n : Nat}

theorem trans (hxy : a.Ancestor x y) (hyn : a.Ancestor y n) : a.Ancestor x n := by
  induction hyn with
  | parent hn hp => exact .above hn hp hxy
  | above hn hp _ ih => exact .above hn hp ih

/-- Without new parent links there are no new ancestors. -/
theorem of_parents {b : Arena} (hb : ∀ (m : Nat) (d : Node) (p : NodeId), b.node? m = some d →
    d.parent = some p → ∃ e, a.node? m = some e ∧ e.parent = some p) (h : b.Ancestor x n) :
    a.Ancestor x n := by
  induction h with
  | parent hn hp =>
    obtain ⟨e, he, hp⟩ := hb _ _ _ hn hp
    exact .parent he hp
  | above hn hp _ ih =>
    obtain ⟨e, he, hp⟩ := hb _ _ _ hn hp
    exact .above he hp ih

/-- A node with an ancestor has a parent. -/
theorem exists_parent (h : a.Ancestor x n) : ∃ d p, a.node? n = some d ∧ d.parent = some p := by
  cases h with
  | parent hn hp => exact ⟨_, _, hn, hp⟩
  | above hn hp _ => exact ⟨_, _, hn, hp⟩

/-- An ancestor is the parent of some node. -/
theorem exists_child (h : a.Ancestor x n) : ∃ m d, a.node? m = some d ∧ d.parent = some x := by
  induction h with
  | parent hn hp => exact ⟨_, _, hn, hp⟩
  | above _ _ _ ih => exact ih

theorem not_of_root {d : Node} (hn : a.node? n = some d) (hroot : d.parent = none) :
    ¬ a.Ancestor x n := by
  intro h
  obtain ⟨e, p, he, hp⟩ := h.exists_parent
  obtain rfl : d = e := Option.some.inj (hn.symm.trans he)
  rw [hroot] at hp
  cases hp

/-- The ancestors of a node are its parent and what is above that. -/
theorem iff_of_parent {d : Node} {p : NodeId} (hn : a.node? n = some d) (hp : d.parent = some p) :
    a.Ancestor x n ↔ p = x ∨ a.Ancestor x p := by
  constructor
  · intro h
    cases h with
    | parent hn' hx =>
      obtain rfl := Option.some.inj (hn.symm.trans hn')
      exact .inl (Option.some.inj (hp.symm.trans hx))
    | above hn' hq habove =>
      obtain rfl := Option.some.inj (hn.symm.trans hn')
      obtain rfl := Option.some.inj (hp.symm.trans hq)
      exact .inr habove
  · rintro (rfl | habove)
    · exact .parent hn hp
    · exact .above hn hp habove

/-- Nothing is below a node without children. -/
theorem not_of_childless (hw : a.WellFormed) {d : Node} (hx : a.node? x = some d)
    (hd : d.children = []) : ¬ a.Ancestor x n := by
  intro h
  obtain ⟨m, e, hm, hp⟩ := h.exists_child
  have hmem := (hw.listed_iff m x e d hm hx).mpr hp
  rw [hd] at hmem
  cases hmem

end Ancestor

theorem lt_size_of_leadsTo {a : Arena} {x fuel n : Nat} {found : Bool}
    (h : a.leadsTo x fuel n = .ok found) : n < a.size := by
  cases fuel with
  | zero => cases h
  | succ fuel =>
    unfold leadsTo at h
    cases hp : a.parent? n with
    | error e => rw [hp] at h; cases h
    | ok p =>
      obtain ⟨d, hd, -⟩ := parent?_eq_ok_iff.mp hp
      exact lt_size_of_node? hd

theorem leadsTo_succ_of_root {a : Arena} {n : Nat} {d : Node} (hn : a.node? n = some d)
    (hroot : d.parent = none) (x : NodeId) (fuel : Nat) :
    a.leadsTo x (fuel + 1) n = .ok false := by
  rw [leadsTo, parent?_eq_ok_iff.mpr ⟨d, hn, hroot⟩]
  rfl

theorem leadsTo_succ_of_parent {a : Arena} {n : Nat} {d : Node} {p : NodeId}
    (hn : a.node? n = some d) (hp : d.parent = some p) (x : NodeId) (fuel : Nat) :
    a.leadsTo x (fuel + 1) n = if p = x then .ok true else a.leadsTo x fuel p := by
  rw [leadsTo, parent?_eq_ok_iff.mpr ⟨d, hn, hp⟩]
  rfl

/-- A walk that ends has found out whether `x` is an ancestor. -/
theorem ancestor_iff_of_leadsTo {a : Arena} {x : Nat} :
    ∀ {fuel n : Nat} {found : Bool}, a.leadsTo x fuel n = .ok found →
      (found = true ↔ a.Ancestor x n)
  | 0, n, found, h => by cases h
  | fuel + 1, n, found, h => by
    obtain ⟨d, hd⟩ := exists_node?_of_lt (lt_size_of_leadsTo h)
    cases hp : d.parent with
    | none =>
      rw [leadsTo_succ_of_root hd hp] at h
      cases h
      exact iff_of_false Bool.false_ne_true (Ancestor.not_of_root hd hp)
    | some p =>
      rw [leadsTo_succ_of_parent hd hp] at h
      rw [Ancestor.iff_of_parent hd hp]
      split_ifs at h with hx
      · cases h
        exact iff_of_true rfl (.inl hx)
      · rw [ancestor_iff_of_leadsTo h, or_iff_right hx]

/-! ### Allocation and renaming -/

/-- A new node is a root without children, so it changes nothing for the others. -/
theorem wellFormed_push {a : Arena} (hw : a.WellFormed) (k : Kind) : (a.push k).WellFormed := by
  have hcases : ∀ {m : Nat} {d : Node}, (a.push k).node? m = some d →
      (m = a.size ∧ d = { kind := k }) ∨ a.node? m = some d := by
    intro m d hd
    rw [node?_push] at hd
    split_ifs at hd with hm
    · exact .inl ⟨hm, (Option.some.inj hd).symm⟩
    · exact .inr hd
  constructor
  case parent_lt =>
    intro n p d hd hp
    rcases hcases hd with ⟨-, rfl⟩ | hd
    · cases hp
    · have := hw.parent_lt n p d hd hp
      rw [size_push]
      omega
  case child_lt =>
    intro n d c hd hc
    rcases hcases hd with ⟨-, rfl⟩ | hd
    · cases hc
    · rw [size_push]
      exact Nat.lt_succ_of_lt (hw.child_lt n d c hd hc)
  case listed_iff =>
    intro n p d e hd he
    rcases hcases he with ⟨rfl, rfl⟩ | he
    · -- nobody can have the new node for its parent
      simp only [List.map_nil, List.not_mem_nil, false_iff]
      intro hp
      rcases hcases hd with ⟨-, rfl⟩ | hd
      · cases hp
      · exact absurd (hw.parent_lt n _ d hd hp) (Nat.lt_irrefl _)
    · rcases hcases hd with ⟨rfl, rfl⟩ | hd
      · simp only [reduceCtorEq, iff_false]
        intro hmem
        obtain ⟨c, hc, hn⟩ := List.mem_map.mp hmem
        have hlt := hw.child_lt p e c he hc
        rw [hn] at hlt
        exact absurd hlt (Nat.lt_irrefl _)
      · exact hw.listed_iff n p d e hd he
  case listed_once =>
    intro p e he
    rcases hcases he with ⟨-, rfl⟩ | he
    · exact List.nodup_nil
    · exact hw.listed_once p e he
  case acyclic =>
    intro n h
    refine hw.acyclic n (h.of_parents fun m x p hm hp => ?_)
    rcases hcases hm with ⟨-, rfl⟩ | hm
    · cases hp
    · exact ⟨x, hm, hp⟩
  case single_once =>
    intro p e r he hr
    rcases hcases he with ⟨-, rfl⟩ | he
    · simp [ChildList.allUnder]
    · exact hw.single_once p e r he hr
  case admitted =>
    intro p e c d he hc hd
    rcases hcases he with ⟨-, rfl⟩ | he
    · cases hc
    · rw [node?_push_of_ne a k (Nat.ne_of_lt (hw.child_lt p e c he hc))] at hd
      exact hw.admitted p e c d he hc hd

/-- A node may get another kind, if the role under which it is listed takes it. -/
theorem wellFormed_setKind {a : Arena} (hw : a.WellFormed) {n : Nat} {k : Kind}
    (hk : ∀ (p : Nat) (e : Node) (r : RoleId), a.node? p = some e →
      (⟨r, n⟩ : Child) ∈ e.children → r.admits k.category = true) :
    (a.setKind n k).WellFormed := by
  -- every record is an old one, up to the kind of `n`
  have hcases : ∀ {m : Nat} {x : Node}, (a.setKind n k).node? m = some x →
      ∃ y, a.node? m = some y ∧ x.parent = y.parent ∧ x.children = y.children ∧
        (n ≠ m → x.kind = y.kind) ∧ (n = m → x.kind = k) := by
    intro m x hx
    rw [node?_setKind] at hx
    split_ifs at hx with hm
    · obtain ⟨y, hy, rfl⟩ := Option.map_eq_some_iff.mp hx
      exact ⟨y, hy, rfl, rfl, fun hne => absurd hm hne, fun _ => rfl⟩
    · exact ⟨x, hx, rfl, rfl, fun _ => rfl, fun heq => absurd heq hm⟩
  constructor
  case parent_lt =>
    intro m p x hx hp
    obtain ⟨y, hy, hpar, -, -⟩ := hcases hx
    rw [size_setKind]
    exact hw.parent_lt m p y hy (hpar ▸ hp)
  case child_lt =>
    intro m x c hx hc
    obtain ⟨y, hy, -, hch, -⟩ := hcases hx
    rw [size_setKind]
    exact hw.child_lt m y c hy (hch ▸ hc)
  case listed_iff =>
    intro m p x e hx he
    obtain ⟨y, hy, hpar, -, -⟩ := hcases hx
    obtain ⟨f, hf, -, hch, -⟩ := hcases he
    rw [hpar, hch]
    exact hw.listed_iff m p y f hy hf
  case listed_once =>
    intro p e he
    obtain ⟨f, hf, -, hch, -⟩ := hcases he
    rw [hch]
    exact hw.listed_once p f hf
  case acyclic =>
    intro m h
    refine hw.acyclic m (h.of_parents fun i x p hi hp => ?_)
    obtain ⟨y, hy, hpar, -, -⟩ := hcases hi
    exact ⟨y, hy, hpar ▸ hp⟩
  case single_once =>
    intro p e r he hr
    obtain ⟨f, hf, -, hch, -⟩ := hcases he
    rw [hch]
    exact hw.single_once p f r hf hr
  case admitted =>
    intro p e c x he hc hx
    obtain ⟨f, hf, -, hch, -⟩ := hcases he
    obtain ⟨y, hy, -, -, hother, hself⟩ := hcases hx
    rw [hch] at hc
    by_cases hn : n = c.node
    · rw [hself hn]
      exact hk p f c.role hf (by rwa [hn])
    · rw [hother hn]
      exact hw.admitted p f c y hf hc hy

/-! ### The change of two records -/

/-- Give `n` the child list `cs`, and `c` the parent `p`. -/
def relink (a : Arena) (n : NodeId) (cs : ChildList) (c : NodeId) (p : Option NodeId) : Arena :=
  (a.setChildren n fun _ => cs).setParent c p

section Relink

variable {a : Arena} {n c : Nat} {d e : Node}

@[simp] theorem size_relink (a : Arena) (n : NodeId) (cs : ChildList) (c : NodeId)
    (p : Option NodeId) : (a.relink n cs c p).size = a.size := by
  rw [relink, size_setParent, size_setChildren]

theorem node?_relink (hn : a.node? n = some d) (hc : a.node? c = some e) (hne : c ≠ n)
    (cs : ChildList) (p : Option NodeId) (m : Nat) :
    (a.relink n cs c p).node? m =
      if m = n then some { d with children := cs }
      else if m = c then some { e with parent := p } else a.node? m := by
  rw [relink, node?_setParent, node?_setChildren]
  by_cases hmn : m = n
  · subst hmn
    rw [if_neg hne, if_pos rfl, if_pos rfl, hn]
    rfl
  · rw [if_neg hmn, if_neg (Ne.symm hmn)]
    by_cases hmc : m = c
    · subst hmc
      rw [if_pos rfl, if_pos rfl, hc]
      rfl
    · rw [if_neg (Ne.symm hmc), if_neg hmc]

theorem node?_relink_self (hn : a.node? n = some d) (hne : c ≠ n) (cs : ChildList)
    (p : Option NodeId) : (a.relink n cs c p).node? n = some { d with children := cs } := by
  rw [relink, node?_setParent, if_neg hne, node?_setChildren, if_pos rfl, hn]
  rfl

/-- The records after the change: that of `n`, that of `c`, and those from before. -/
theorem node?_relink_cases (hn : a.node? n = some d) (hc : a.node? c = some e) (hne : c ≠ n)
    {cs : ChildList} {p : Option NodeId} {m : Nat} {x : Node}
    (hx : (a.relink n cs c p).node? m = some x) :
    (m = n ∧ x = { d with children := cs }) ∨ (m = c ∧ x = { e with parent := p }) ∨
      (m ≠ n ∧ m ≠ c ∧ a.node? m = some x) := by
  rw [node?_relink hn hc hne] at hx
  split_ifs at hx with hmn hmc
  · exact .inl ⟨hmn, (Option.some.inj hx).symm⟩
  · exact .inr (.inl ⟨hmc, (Option.some.inj hx).symm⟩)
  · exact .inr (.inr ⟨hmn, hmc, hx⟩)

/-- No node changes its kind. -/
theorem exists_kind_of_relink (hn : a.node? n = some d) (hc : a.node? c = some e) (hne : c ≠ n)
    {cs : ChildList} {p : Option NodeId} {m : Nat} {x : Node}
    (hx : (a.relink n cs c p).node? m = some x) : ∃ z, a.node? m = some z ∧ x.kind = z.kind := by
  rcases node?_relink_cases hn hc hne hx with ⟨rfl, rfl⟩ | ⟨rfl, rfl⟩ | ⟨-, -, hx⟩
  · exact ⟨d, hn, rfl⟩
  · exact ⟨e, hc, rfl⟩
  · exact ⟨x, hx, rfl⟩

/-- A root is listed nowhere. -/
theorem not_listed_of_root (hw : a.WellFormed) (hc : a.node? c = some e) (hroot : e.parent = none)
    {p : Nat} {f : Node} (hf : a.node? p = some f) : c ∉ f.children.map (·.node) := by
  intro hmem
  have hp := (hw.listed_iff c p e f hc hf).mp hmem
  rw [hroot] at hp
  cases hp

/-- Linking lists `c` below `n`, and the others where they were. -/
theorem listed_relink_some (hn : a.node? n = some d) (hc : a.node? c = some e) (hne : c ≠ n)
    {before after : ChildList} {r : RoleId} (hd : d.children = before ++ after) {q : Option NodeId}
    {p : Nat} {f : Node} (hf : (a.relink n (before ++ ⟨r, c⟩ :: after) c q).node? p = some f) :
    ∃ g, a.node? p = some g ∧ ∀ m, m ∈ f.children.map (·.node) ↔
      (p = n ∧ m = c) ∨ m ∈ g.children.map (·.node) := by
  rcases node?_relink_cases hn hc hne hf with ⟨rfl, rfl⟩ | ⟨rfl, rfl⟩ | ⟨hpn, -, hf⟩
  · refine ⟨d, hn, fun m => ?_⟩
    rw [hd]
    simp only [List.map_append, List.map_cons, List.mem_append, List.mem_cons, true_and]
    exact or_left_comm
  · exact ⟨e, hc, by simp [hne]⟩
  · exact ⟨f, hf, by simp [hpn]⟩

/-- Unlinking lists `c` below `n` no more, and the others where they were. -/
theorem listed_relink_none (hw : a.WellFormed) (hn : a.node? n = some d) (hc : a.node? c = some e)
    (hne : c ≠ n) {before after : ChildList} {r : RoleId}
    (hd : d.children = before ++ ⟨r, c⟩ :: after) {q : Option NodeId} {p : Nat} {f : Node}
    (hf : (a.relink n (before ++ after) c q).node? p = some f) :
    ∃ g, a.node? p = some g ∧ ∀ m, m ∈ f.children.map (·.node) ↔
      m ∈ g.children.map (·.node) ∧ ¬ (p = n ∧ m = c) := by
  rcases node?_relink_cases hn hc hne hf with ⟨rfl, rfl⟩ | ⟨rfl, rfl⟩ | ⟨hpn, -, hf⟩
  · refine ⟨d, hn, fun m => ?_⟩
    by_cases hmc : m = c
    · -- it was listed once, so it is not listed now
      subst hmc
      have hold := hw.listed_once p d hn
      rw [hd, List.map_append, List.map_cons, List.nodup_middle, List.nodup_cons,
        ← List.map_append] at hold
      exact iff_of_false hold.1 fun h => h.2 ⟨rfl, rfl⟩
    · rw [hd]
      simp [hmc]
  · exact ⟨e, hc, by simp [hne]⟩
  · exact ⟨f, hf, by simp [hpn]⟩

/-- Every chain of parent links after the change either was there before, or passes through the
new link from `c` to `n`. -/
theorem ancestor_relink_some (hn : a.node? n = some d) (hc : a.node? c = some e) (hne : c ≠ n)
    (hnot : ¬ a.Ancestor c n) {cs : ChildList} {x m : Nat}
    (h : (a.relink n cs c (some n)).Ancestor x m) :
    a.Ancestor x m ∨ ((x = n ∨ a.Ancestor x n) ∧ (m = c ∨ a.Ancestor c m)) := by
  induction h with
  | parent hm hp =>
    rcases node?_relink_cases hn hc hne hm with ⟨rfl, rfl⟩ | ⟨rfl, rfl⟩ | ⟨-, -, hold⟩
    · exact .inl (.parent hn hp)
    · exact .inr ⟨.inl (Option.some.inj hp).symm, .inl rfl⟩
    · exact .inl (.parent hold hp)
  | above hm hp _ ih =>
    rcases node?_relink_cases hn hc hne hm with ⟨rfl, rfl⟩ | ⟨rfl, rfl⟩ | ⟨-, -, hold⟩
    · rcases ih with ih | ⟨hx, rfl | ih⟩
      · exact .inl (.above hn hp ih)
      · exact absurd (.parent hn hp) hnot
      · exact absurd (.above hn hp ih) hnot
    · -- the step is the new link: its upper end is `n`
      cases hp
      rcases ih with ih | ⟨-, ih | ih⟩
      · exact .inr ⟨.inr ih, .inl rfl⟩
      · exact absurd ih (Ne.symm hne)
      · exact absurd ih hnot
    · rcases ih with ih | ⟨hx, rfl | ih⟩
      · exact .inl (.above hold hp ih)
      · exact .inr ⟨hx, .inr (.parent hold hp)⟩
      · exact .inr ⟨hx, .inr (.above hold hp ih)⟩

/-- **Linking**: a root `c` may be put anywhere into the child list of a node `n` that is neither
`c` nor below `c`, under a role that takes `c`. -/
theorem wellFormed_relink_some (hw : a.WellFormed) (hn : a.node? n = some d)
    (hc : a.node? c = some e) (hroot : e.parent = none) (hne : c ≠ n) (hnot : ¬ a.Ancestor c n)
    {before after : ChildList} {r : RoleId} (hd : d.children = before ++ after)
    (hadm : r.admits e.kind.category = true)
    (hsingle : r.cardinality = .single → r ∉ d.children.map (·.role)) :
    (a.relink n (before ++ ⟨r, c⟩ :: after) c (some n)).WellFormed := by
  have hcases := fun {m x} => @node?_relink_cases a n c d e hn hc hne
    (before ++ ⟨r, c⟩ :: after) (some n) m x
  -- the new list has one entry more than the old one
  have hmem : ∀ x : Child, x ∈ before ++ ⟨r, c⟩ :: after ↔ x = ⟨r, c⟩ ∨ x ∈ d.children := by
    intro x
    rw [hd]
    rw [List.mem_append, List.mem_cons, List.mem_append]
    exact or_left_comm
  constructor
  case parent_lt =>
    intro m p x hx hp
    rw [size_relink]
    rcases hcases hx with ⟨rfl, rfl⟩ | ⟨rfl, rfl⟩ | ⟨-, -, hx⟩
    · exact hw.parent_lt m p d hn hp
    · cases hp
      exact lt_size_of_node? hn
    · exact hw.parent_lt m p x hx hp
  case child_lt =>
    intro m x y hx hy
    rw [size_relink]
    rcases hcases hx with ⟨rfl, rfl⟩ | ⟨rfl, rfl⟩ | ⟨-, -, hx⟩
    · rcases (hmem y).mp hy with rfl | hy
      · exact lt_size_of_node? hc
      · exact hw.child_lt m d y hn hy
    · exact hw.child_lt m e y hc hy
    · exact hw.child_lt m x y hx hy
  case listed_iff =>
    intro m p x f hx hf
    obtain ⟨g, hg, hlist⟩ := listed_relink_some hn hc hne hd hf
    rw [hlist m]
    by_cases hmc : m = c
    · subst hmc
      rcases hcases hx with ⟨rfl, -⟩ | ⟨-, rfl⟩ | ⟨-, hmm, -⟩
      · exact absurd rfl hne
      · simp only [not_listed_of_root hw hc hroot hg, and_true, or_false, Option.some.injEq]
        exact eq_comm
      · exact absurd rfl hmm
    · simp only [hmc, and_false, false_or]
      rcases hcases hx with ⟨rfl, rfl⟩ | ⟨rfl, -⟩ | ⟨-, -, hx⟩
      · exact hw.listed_iff m p d g hn hg
      · exact absurd rfl hmc
      · exact hw.listed_iff m p x g hx hg
  case listed_once =>
    intro p f hf
    rcases hcases hf with ⟨rfl, rfl⟩ | ⟨rfl, rfl⟩ | ⟨-, -, hf⟩
    · have hold := hw.listed_once p d hn
      have hnew := not_listed_of_root hw hc hroot hn
      rw [hd, List.map_append] at hold hnew
      rw [List.map_append, List.map_cons, List.nodup_middle, List.nodup_cons]
      exact ⟨hnew, hold⟩
    · exact hw.listed_once p e hc
    · exact hw.listed_once p f hf
  case acyclic =>
    intro m h
    rcases ancestor_relink_some hn hc hne hnot h with h | ⟨rfl | hmn, hmc | hcm⟩
    · exact hw.acyclic m h
    · exact hne hmc.symm
    · exact hnot hcm
    · exact hnot (hmc ▸ hmn)
    · exact hnot (hcm.trans hmn)
  case single_once =>
    intro p f s hf hs
    rcases hcases hf with ⟨rfl, rfl⟩ | ⟨rfl, rfl⟩ | ⟨-, -, hf⟩
    · have hold := hw.single_once p d s hn hs
      rw [hd, ChildList.allUnder_append, List.length_append] at hold
      rw [ChildList.allUnder_append, ChildList.allUnder_cons]
      split_ifs with hrs
      · -- the role was not in use before
        subst hrs
        have hnone := ChildList.allUnder_eq_nil_iff.mpr (hsingle hs)
        rw [hd, ChildList.allUnder_append, List.append_eq_nil_iff] at hnone
        simp [hnone.1, hnone.2]
      · rw [List.length_append]
        exact hold
    · exact hw.single_once p e s hc hs
    · exact hw.single_once p f s hf hs
  case admitted =>
    intro p f y x hf hy hx
    obtain ⟨z, hz, hkind⟩ := exists_kind_of_relink hn hc hne hx
    rw [hkind]
    rcases hcases hf with ⟨rfl, rfl⟩ | ⟨rfl, rfl⟩ | ⟨-, -, hf⟩
    · rcases (hmem y).mp hy with rfl | hy
      · obtain rfl : e = z := Option.some.inj (hc.symm.trans hz)
        exact hadm
      · exact hw.admitted p d y z hn hy hz
    · exact hw.admitted p e y z hc hy hz
    · exact hw.admitted p f y z hf hy hz

/-- Taking a parent away adds no ancestors. -/
theorem ancestor_relink_none (hn : a.node? n = some d) (hc : a.node? c = some e) (hne : c ≠ n)
    {cs : ChildList} {x m : Nat} (h : (a.relink n cs c none).Ancestor x m) : a.Ancestor x m := by
  refine h.of_parents fun i y p hi hp => ?_
  rcases node?_relink_cases hn hc hne hi with ⟨rfl, rfl⟩ | ⟨-, rfl⟩ | ⟨-, -, hold⟩
  · exact ⟨d, hn, hp⟩
  · cases hp
  · exact ⟨y, hold, hp⟩

/-- A listed node is there, has the listing node for its parent, and is another node. -/
theorem exists_node?_of_listed (hw : a.WellFormed) (hn : a.node? n = some d) {r : RoleId}
    (hc : (⟨r, c⟩ : Child) ∈ d.children) : ∃ e, a.node? c = some e ∧ e.parent = some n ∧ c ≠ n := by
  obtain ⟨e, he⟩ := exists_node?_of_lt (hw.child_lt n d ⟨r, c⟩ hn hc)
  have hp : e.parent = some n :=
    (hw.listed_iff c n e d he hn).mp (List.mem_map.mpr ⟨⟨r, c⟩, hc, rfl⟩)
  refine ⟨e, he, hp, ?_⟩
  rintro rfl
  exact hw.acyclic c (.parent he hp)

/-- A listed node is not above the listing node. -/
theorem WellFormed.not_ancestor_of_listed (hw : a.WellFormed) (hn : a.node? n = some d) {r : RoleId}
    (hc : (⟨r, c⟩ : Child) ∈ d.children) : ¬ a.Ancestor c n := by
  obtain ⟨e, he, hp, -⟩ := exists_node?_of_listed hw hn hc
  intro habove
  exact hw.acyclic n (Ancestor.trans (.parent he hp) habove)

/-- The place of a node is where it is listed. -/
theorem place?_of_listed (hw : a.WellFormed) (hn : a.node? n = some d) {before after : ChildList}
    {r : RoleId} (hd : d.children = before ++ ⟨r, c⟩ :: after) :
    a.place? c = .ok (some ⟨n, before, r, after⟩) := by
  obtain ⟨e, he, hparent, -⟩ := exists_node?_of_listed hw hn (c := c) (r := r) (by simp [hd])
  have hsplit : ChildList.split? c d.children = some (before, r, after) := by
    have honce := hw.listed_once n d hn
    rw [hd, List.map_append, List.nodup_append] at honce
    rw [hd]
    refine ChildList.split?_append fun hmem => ?_
    exact honce.2.2 c hmem c (by simp) rfl
  unfold place?
  rw [parent?_eq_ok_iff.mpr ⟨e, he, hparent⟩]
  simp only [bind, Except.bind, children_of_node? hn, hsplit]
  rfl

/-- The role of a node is where it is listed. -/
theorem roleOf?_of_listed (hw : a.WellFormed) (hn : a.node? n = some d) {r : RoleId}
    (hc : (⟨r, c⟩ : Child) ∈ d.children) : a.roleOf? c = .ok (some r) := by
  obtain ⟨before, after, hd⟩ := List.append_of_mem hc
  exact roleOf?_of_place? (place?_of_listed hw hn hd)

/-- A role that a node sits under takes it. -/
theorem admits_of_roleOf? (hw : a.WellFormed) {r : RoleId} {k : Kind}
    (h : a.roleOf? n = .ok (some r)) (hk : a.kind n = .ok k) : r.admits k.category = true := by
  obtain ⟨p, e, hp, hlisted⟩ := exists_listed_of_roleOf? h
  obtain ⟨f, hf, rfl⟩ := kind_eq_ok_iff.mp hk
  exact hw.admitted p e ⟨r, n⟩ f hp hlisted hf

/-- **Unlinking**: an entry may be taken out of a child list; its node becomes a root. -/
theorem wellFormed_relink_none (hw : a.WellFormed) (hn : a.node? n = some d)
    {before after : ChildList} {r : RoleId} (hd : d.children = before ++ ⟨r, c⟩ :: after) :
    (a.relink n (before ++ after) c none).WellFormed := by
  obtain ⟨e, hc, hpar, hne⟩ := exists_node?_of_listed hw hn (c := c) (r := r) (by simp [hd])
  have hcases := fun {m x} => @node?_relink_cases a n c d e hn hc hne (before ++ after) none m x
  -- the old list has one entry more than the new one
  have hsub : (before ++ after).Sublist d.children := by
    rw [hd]
    exact (List.Sublist.refl before).append (List.sublist_cons_self _ _)
  constructor
  case parent_lt =>
    intro m p x hx hp
    rw [size_relink]
    rcases hcases hx with ⟨rfl, rfl⟩ | ⟨-, rfl⟩ | ⟨-, -, hx⟩
    · exact hw.parent_lt m p d hn hp
    · cases hp
    · exact hw.parent_lt m p x hx hp
  case child_lt =>
    intro m x y hx hy
    rw [size_relink]
    rcases hcases hx with ⟨rfl, rfl⟩ | ⟨rfl, rfl⟩ | ⟨-, -, hx⟩
    · exact hw.child_lt m d y hn (hsub.subset hy)
    · exact hw.child_lt m e y hc hy
    · exact hw.child_lt m x y hx hy
  case listed_iff =>
    intro m p x f hx hf
    obtain ⟨g, hg, hlist⟩ := listed_relink_none hw hn hc hne hd hf
    rw [hlist m]
    by_cases hmc : m = c
    · subst hmc
      -- below any other node `c` was not listed to begin with
      have hp : ¬ (m ∈ g.children.map (·.node) ∧ ¬ (p = n ∧ True)) := by
        rintro ⟨hmem, hpn⟩
        have := (hw.listed_iff m p e g hc hg).mp hmem
        rw [hpar] at this
        exact hpn ⟨(Option.some.inj this).symm, trivial⟩
      rcases hcases hx with ⟨rfl, -⟩ | ⟨-, rfl⟩ | ⟨-, hmm, -⟩
      · exact absurd rfl hne
      · simpa using hp
      · exact absurd rfl hmm
    · simp only [hmc, and_false, not_false_eq_true, and_true]
      rcases hcases hx with ⟨rfl, rfl⟩ | ⟨rfl, -⟩ | ⟨-, -, hx⟩
      · exact hw.listed_iff m p d g hn hg
      · exact absurd rfl hmc
      · exact hw.listed_iff m p x g hx hg
  case listed_once =>
    intro p f hf
    rcases hcases hf with ⟨rfl, rfl⟩ | ⟨rfl, rfl⟩ | ⟨-, -, hf⟩
    · exact (hw.listed_once p d hn).sublist (hsub.map _)
    · exact hw.listed_once p e hc
    · exact hw.listed_once p f hf
  case acyclic =>
    intro m h
    exact hw.acyclic m (ancestor_relink_none hn hc hne h)
  case single_once =>
    intro p f s hf hs
    rcases hcases hf with ⟨rfl, rfl⟩ | ⟨rfl, rfl⟩ | ⟨-, -, hf⟩
    · refine Nat.le_trans ?_ (hw.single_once p d s hn hs)
      exact ((hsub.filter _).map _).length_le
    · exact hw.single_once p e s hc hs
    · exact hw.single_once p f s hf hs
  case admitted =>
    intro p f y x hf hy hx
    obtain ⟨z, hz, hkind⟩ := exists_kind_of_relink hn hc hne hx
    rw [hkind]
    rcases hcases hf with ⟨rfl, rfl⟩ | ⟨rfl, rfl⟩ | ⟨-, -, hf⟩
    · exact hw.admitted p d y z hn (hsub.subset hy) hz
    · exact hw.admitted p e y z hc hy hz
    · exact hw.admitted p f y z hf hy hz

/-- The other entries have other roles than a child whose role takes a single one. -/
theorem WellFormed.not_mem_roles_of_single (hw : a.WellFormed) (hn : a.node? n = some d)
    {before after : ChildList} {r : RoleId} (hd : d.children = before ++ ⟨r, c⟩ :: after)
    (hr : r.cardinality = .single) : r ∉ (before ++ after).map (·.role) := by
  -- a second entry under `r` would make two of them
  have hone := hw.single_once n d r hn hr
  rw [hd, ChildList.allUnder_append, ChildList.allUnder_cons, if_pos rfl] at hone
  simp only [List.length_append, List.length_cons] at hone
  rw [← ChildList.allUnder_eq_nil_iff, ChildList.allUnder_append, List.append_eq_nil_iff,
    ← List.length_eq_zero_iff, ← List.length_eq_zero_iff]
  omega

/-- **Replacing** a child is unlinking the old one and linking the new one in its place. -/
theorem wellFormed_relink_relink (hw : a.WellFormed) (hn : a.node? n = some d)
    (hc : a.node? c = some e) (hroot : e.parent = none) (hne : c ≠ n) (hnot : ¬ a.Ancestor c n)
    {before after : ChildList} {r : RoleId} {o : Nat}
    (hd : d.children = before ++ ⟨r, o⟩ :: after) (hadm : r.admits e.kind.category = true) :
    ((a.relink n (before ++ after) o none).relink n (before ++ ⟨r, c⟩ :: after) c
      (some n)).WellFormed := by
  obtain ⟨f, ho, hpar, hon⟩ := exists_node?_of_listed hw hn (c := o) (r := r) (by simp [hd])
  have hco : c ≠ o := by
    rintro rfl
    rw [hc] at ho
    cases ho
    rw [hroot] at hpar
    cases hpar
  have hlook := node?_relink hn ho hon (before ++ after) none
  exact wellFormed_relink_some (wellFormed_relink_none hw hn hd) (d := { d with children := _ })
    (e := e) (by rw [hlook, if_pos rfl]) (by rw [hlook, if_neg hne, if_neg hco, hc]) hroot hne
    (fun h => hnot (ancestor_relink_none hn ho hon h)) rfl hadm (hw.not_mem_roles_of_single hn hd)

end Relink

end Arena

end SyntaxForest
