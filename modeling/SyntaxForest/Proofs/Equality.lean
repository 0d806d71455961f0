import SyntaxForest.Arena.Compare
import SyntaxForest.Proofs.Reachable

/-!
# Structural equality is equality of trees

`structurallyEqual` goes down two arenas at once and stops at the first difference.  If the two
nodes stand for trees, it finds an answer, and the answer is whether the trees are equal
(`structurallyEqual_of_isAt`).  The fuel is that of the first arena: the comparison never goes
further down than the first of the two trees.  If the answer is yes, then the nodes do stand for
trees, even where the arenas are not known to be sound (`structurallyEqual_eq_true_iff`).

In well-formed arenas every node stands for a tree, so the comparison decides equality of trees, and
has the laws of equality across arenas (`structurallyEqual_decides`).
-/

namespace SyntaxForest

/-- Questions that all have an answer, asked in turn until one of them is answered with no. -/
theorem exists_allM_eq_ok {α ε : Type} {f : α → Except ε Bool} {Q : α → Prop} : ∀ {xs : List α},
    (∀ x ∈ xs, ∃ v, f x = .ok v ∧ (v = true ↔ Q x)) →
      ∃ v, xs.allM f = .ok v ∧ (v = true ↔ ∀ x ∈ xs, Q x)
  | [], _ => ⟨true, rfl, by simp⟩
  | x :: xs, h => by
    obtain ⟨v, hv, hiff⟩ := h x List.mem_cons_self
    rw [List.allM]
    cases v with
    | false => exact ⟨false, by rw [hv]; rfl, by simp [← hiff]⟩
    | true =>
      obtain ⟨w, hw, hrest⟩ := exists_allM_eq_ok fun y hy => h y (List.mem_cons_of_mem _ hy)
      refine ⟨w, by rw [hv]; exact hw, ?_⟩
      rw [hrest, List.forall_mem_cons, ← hiff]
      simp

theorem eq_true_of_allM {α ε : Type} {f : α → Except ε Bool} : ∀ {xs : List α},
    xs.allM f = .ok true → ∀ x ∈ xs, f x = .ok true
  | y :: ys, h, x, hx => by
    rw [List.allM] at h
    cases hy : f y with
    | error e => rw [hy] at h; cases h
    | ok v =>
      cases v with
      | false => rw [hy] at h; cases h
      | true =>
        rw [hy] at h
        rcases List.mem_cons.mp hx with rfl | hx
        · exact hy
        · exact eq_true_of_allM h x hx

namespace Arena

variable {a b : Arena}

/-- Lists of trees are equal if the lists of children that stand for them have the same roles, and
children in the same place stand for the same tree. -/
theorem branches_eq_iff {ts us : List (RoleId × Tree)} {cs ds : ChildList}
    (ht : List.Forall₂ (fun x c => c.role = x.1 ∧ x.2.IsAt a c.node) ts cs)
    (hu : List.Forall₂ (fun x c => c.role = x.1 ∧ x.2.IsAt b c.node) us ds) :
    ts = us ↔ cs.map (·.role) = ds.map (·.role) ∧ ∀ x ∈ cs.zip ds, ∀ t u : Tree,
      t.IsAt a x.1.node → u.IsAt b x.2.node → t = u := by
  induction ht generalizing us ds with
  | nil =>
    cases hu with
    | nil => simp
    | cons => simp
  | @cons x c ts cs hx _ ih =>
    obtain ⟨r, t⟩ := x
    obtain ⟨rfl, htree⟩ := hx
    cases hu with
    | nil => simp
    | @cons y d us ds hy hrest =>
      obtain ⟨s, u⟩ := y
      obtain ⟨rfl, hother⟩ := hy
      -- a node stands for one tree only, so "all trees" are just these two
      have hhead : t = u ↔ ∀ t' u' : Tree, t'.IsAt a c.node → u'.IsAt b d.node → t' = u' := by
        constructor
        · intro h t' u' ht' hu'
          rw [ht'.unique htree, hu'.unique hother, h]
        · exact fun h => h t u htree hother
      rw [List.cons_eq_cons, Prod.mk.injEq, ih hrest, List.zip_cons_cons, List.forall_mem_cons,
        List.map_cons, List.map_cons, List.cons_eq_cons, hhead]
      exact ⟨fun h => ⟨⟨h.1.1, h.2.1⟩, h.1.2, h.2.2⟩, fun h => ⟨⟨h.1.1, h.2.1⟩, h.1.2, h.2.2⟩⟩

theorem equalBelow_of_isAt {t : Tree} : ∀ {fuel x y : Nat} {u : Tree}, t.IsAt a x → u.IsAt b y →
    t.depth ≤ fuel → ∃ v, equalBelow a b fuel x y = .ok v ∧ (v = true ↔ t = u) := by
  induction t using Tree.induction with
  | h t ih =>
    intro fuel x y u ht hu hfuel
    obtain ⟨d, hd, hkind, hts⟩ := Tree.isAt_iff.mp ht
    obtain ⟨e, he, hkind', hus⟩ := Tree.isAt_iff.mp hu
    have hiff : t = u ↔ d.kind = e.kind ∧ t.branches = u.branches := by
      rw [hkind, hkind']
      exact ⟨fun h => h ▸ ⟨rfl, rfl⟩, fun h => Tree.ext h.1 h.2⟩
    rw [branches_eq_iff hts hus, ← and_assoc] at hiff
    cases fuel with
    | zero => exact absurd t.depth_pos (Nat.not_lt.mpr hfuel)
    | succ fuel =>
      unfold equalBelow
      rw [node_of_node? hd, node_of_node? he]
      simp only [bind, Except.bind]
      split_ifs with hsame
      · -- what is below is compared in full, and in the other direction
        have hchildren : ∀ z ∈ (d.children.zip e.children).reverse, ∃ v,
            equalBelow a b fuel z.1.node z.2.node = .ok v ∧
              (v = true ↔ ∀ t u : Tree, t.IsAt a z.1.node → u.IsAt b z.2.node → t = u) := by
          intro z hz
          have hz' := List.mem_reverse.mp hz
          obtain ⟨t', hmem, ht', hdepth⟩ := ht.exists_branch hd (List.of_mem_zip hz').1
          obtain ⟨u', -, hu', -⟩ := hu.exists_branch he (List.of_mem_zip hz').2
          obtain ⟨v, hv, hiff⟩ :=
            ih _ hmem ht' hu' (Nat.le_of_lt_succ (Nat.lt_of_lt_of_le hdepth hfuel))
          refine ⟨v, hv, hiff.trans ⟨fun h t₁ u₁ ht₁ hu₁ => ?_, fun h => h _ _ ht' hu'⟩⟩
          rw [ht₁.unique ht', hu₁.unique hu', h]
        obtain ⟨v, hv, hall⟩ := exists_allM_eq_ok hchildren
        refine ⟨v, hv, ?_⟩
        rw [hall, hiff]
        simp only [List.mem_reverse, hsame, and_self, true_and]
      · exact ⟨false, rfl, by simp [hiff, hsame]⟩

/-- **Structural equality** of nodes that stand for trees is equality of the trees. -/
theorem structurallyEqual_of_isAt {x y : Nat} {t u : Tree} (ht : t.IsAt a x) (hu : u.IsAt b y) :
    ∃ v, structurallyEqual a x b y = .ok v ∧ (v = true ↔ t = u) :=
  equalBelow_of_isAt ht hu (Nat.le_succ_of_le ht.depth_le_size)

/-- Children with the same roles, each pair of which stands for a tree in common, stand for the same
list of trees. -/
theorem exists_areAt_both {cs ds : ChildList} (hroles : cs.map (·.role) = ds.map (·.role))
    (h : ∀ z ∈ cs.zip ds, ∃ t : Tree, t.IsAt a z.1.node ∧ t.IsAt b z.2.node) :
    ∃ ts : List (RoleId × Tree), List.Forall₂ (fun x c => c.role = x.1 ∧ x.2.IsAt a c.node) ts cs ∧
      List.Forall₂ (fun x c => c.role = x.1 ∧ x.2.IsAt b c.node) ts ds := by
  induction cs generalizing ds with
  | nil =>
    obtain rfl : ds = [] := by simpa using hroles.symm
    exact ⟨[], .nil, .nil⟩
  | cons c cs ih =>
    cases ds with
    | nil => simp at hroles
    | cons d ds =>
      rw [List.map_cons, List.map_cons, List.cons_eq_cons] at hroles
      obtain ⟨t, ht, hu⟩ := h (c, d) List.mem_cons_self
      obtain ⟨ts, hts, hus⟩ := ih hroles.2 fun z hz => h z (List.mem_cons_of_mem _ hz)
      exact ⟨(c.role, t) :: ts, .cons ⟨rfl, ht⟩ hts, .cons ⟨hroles.1.symm, hu⟩ hus⟩

theorem exists_isAt_of_equalBelow : ∀ {fuel x y : Nat}, equalBelow a b fuel x y = .ok true →
    ∃ t : Tree, t.IsAt a x ∧ t.IsAt b y
  | 0, _, _, h => by cases h
  | fuel + 1, x, y, h => by
    unfold equalBelow at h
    cases hd : a.node x with
    | error e => rw [hd] at h; cases h
    | ok d =>
      cases he : b.node y with
      | error e => rw [hd, he] at h; cases h
      | ok e =>
        rw [hd, he] at h
        simp only [bind, Except.bind] at h
        split_ifs at h with hsame
        · have hchildren : ∀ z ∈ d.children.zip e.children,
              ∃ t : Tree, t.IsAt a z.1.node ∧ t.IsAt b z.2.node := fun z hz =>
            exists_isAt_of_equalBelow (eq_true_of_allM h z (List.mem_reverse.mpr hz))
          obtain ⟨ts, hts, hus⟩ := exists_areAt_both hsame.2 hchildren
          have hbranches := Tree.branches_make d.kind ts
          exact ⟨Tree.make d.kind ts,
            Tree.isAt_iff.mpr ⟨d, node_eq_ok_iff.mp hd, rfl, by rwa [hbranches]⟩,
            Tree.isAt_iff.mpr ⟨e, node_eq_ok_iff.mp he, hsame.1.symm, by rwa [hbranches]⟩⟩
        · cases h

/-- The answer is yes exactly if the nodes stand for a tree in common, whatever the arenas are. -/
theorem structurallyEqual_eq_true_iff {x y : Nat} :
    structurallyEqual a x b y = .ok true ↔ ∃ t : Tree, t.IsAt a x ∧ t.IsAt b y := by
  refine ⟨exists_isAt_of_equalBelow, ?_⟩
  rintro ⟨t, ht, hu⟩
  obtain ⟨v, hv, hiff⟩ := structurallyEqual_of_isAt ht hu
  rw [hv, hiff.mpr rfl]

/-- A comparison that has an answer has found the second node. -/
theorem lt_size_of_structurallyEqual {x y : Nat} {v : Bool}
    (h : structurallyEqual a x b y = .ok v) : y < b.size := by
  unfold structurallyEqual equalBelow at h
  cases hd : a.node x with
  | error e => rw [hd] at h; cases h
  | ok d =>
    cases he : b.node y with
    | error e => rw [hd, he] at h; cases h
    | ok e => exact lt_size_of_node? (node_eq_ok_iff.mp he)

/-- **Structural equality decides equality of trees.**  Nodes of well-formed arenas stand for trees;
comparing them looks at no id beyond the end, comes to an end, and the answer is whether the trees
are equal.  So it is reflexive, symmetric and transitive, across any three arenas. -/
theorem structurallyEqual_decides {A B D : Arena} (hA : A.WellFormed) (hB : B.WellFormed)
    (hD : D.WellFormed) {x y z : Nat} (hx : x < A.size) (hy : y < B.size) (hz : z < D.size) :
    (∃ (t u : Tree) (v : Bool), t.IsAt A x ∧ u.IsAt B y ∧ structurallyEqual A x B y = .ok v ∧
      (v = true ↔ t = u)) ∧
    structurallyEqual A x A x = .ok true ∧
    structurallyEqual B y A x = structurallyEqual A x B y ∧
    (structurallyEqual A x B y = .ok true → structurallyEqual B y D z = .ok true →
      structurallyEqual A x D z = .ok true) := by
  obtain ⟨t, ht⟩ := hA.exists_isAt hx
  obtain ⟨u, hu⟩ := hB.exists_isAt hy
  obtain ⟨w, hw⟩ := hD.exists_isAt hz
  obtain ⟨v, hv, hiff⟩ := structurallyEqual_of_isAt ht hu
  obtain ⟨v', hv', hiff'⟩ := structurallyEqual_of_isAt hu ht
  refine ⟨⟨t, u, v, ht, hu, hv, hiff⟩, ?_, ?_, fun hxy hyz => ?_⟩
  · exact structurallyEqual_eq_true_iff.mpr ⟨t, ht, ht⟩
  · have hsame : v' = v := by rw [Bool.eq_iff_iff, hiff, hiff', eq_comm]
    rw [hv, hv', hsame]
  · obtain ⟨t₁, hx₁, hy₁⟩ := structurallyEqual_eq_true_iff.mp hxy
    obtain ⟨t₂, hy₂, hz₂⟩ := structurallyEqual_eq_true_iff.mp hyz
    rw [hy₂.unique hy₁] at hz₂
    exact structurallyEqual_eq_true_iff.mpr ⟨t₁, hx₁, hz₂⟩

/-- A name, the same name after another one, and a copy of it: the three compare as equal, and the
other name does not. -/
theorem structurallyEqual_decides_name :
    let one := (Call.newIdentifierExpression "x").after .empty
    let two := (Call.newIdentifierExpression "x").after
      ((Call.newIdentifierExpression "y").after .empty)
    let three := (Edit.importFrom two 2).after ((Call.newLiteral .null).after .empty)
    structurallyEqual two 2 one 0 = .ok true ∧ structurallyEqual one 0 three 1 = .ok true ∧
      structurallyEqual two 0 one 0 = .ok false ∧
      ∃ t u : Tree, t.IsAt one 0 ∧ u.IsAt two 0 ∧ t ≠ u := by
  intro one two three
  have hone : one.Reachable := .call (.newIdentifierExpression "x") .empty
  have htwo : two.Reachable :=
    .call (.newIdentifierExpression "x") (.call (.newIdentifierExpression "y") .empty)
  have hthree : three.Reachable := .importFrom htwo 2 (.call (.newLiteral .null) .empty)
  obtain ⟨-, -, hsymm, htrans⟩ := structurallyEqual_decides hone.wellFormed htwo.wellFormed
    hthree.wellFormed (x := 0) (y := 2) (z := 1) (by decide) (by decide) (by decide)
  obtain ⟨⟨t, u, v, ht, hu, hv, hiff⟩, -, hsymm', -⟩ := structurallyEqual_decides hone.wellFormed
    htwo.wellFormed hthree.wellFormed (x := 0) (y := 0) (z := 1) (by decide) (by decide) (by decide)
  have hother : structurallyEqual one 0 two 0 = .ok false := rfl
  refine ⟨hsymm.trans rfl, htrans rfl rfl, hsymm'.trans hother, t, u, ht, hu, fun heq => ?_⟩
  rw [hother, hiff.mpr heq] at hv
  cases hv

end Arena

end SyntaxForest
