import SyntaxForest.Proofs.Denotation

/-!
# Two arenas in lockstep

Nodes of two arenas are `Alike` if they stand for the same tree.  A relation between the nodes of
two arenas is in `Lockstep` if it holds between nodes that are alike only, and passes on to their
children one by one.  Then it passes on to whatever is read of the nodes: the kinds are equal, and
what is found under a role is related.

Being alike is such a relation (`lockstep_alike`).  So is being alike and at the same place below
two given nodes (`lockstep_peers`), where a place is the way down to it, as a list of positions in
child lists (`descend`).
-/

namespace SyntaxForest

/-! ### Related lists -/

section Related

variable {α β γ δ : Type}

/-- Entries that stand side by side are related to entries that stand side by side. -/
theorem rel_zip {R : α → β → Prop} {S : γ → δ → Prop} :
    ∀ {xs : List α} {ys : List β} {zs : List γ} {ws : List δ}, List.Forall₂ R xs ys →
      List.Forall₂ S zs ws → List.Forall₂ (fun p q => R p.1 q.1 ∧ S p.2 q.2) (xs.zip zs) (ys.zip ws)
  | [], [], _, _, _, _ => .nil
  | _ :: _, _ :: _, [], [], _, _ => .nil
  | _ :: _, _ :: _, _ :: _, _ :: _, .cons hR hRs, .cons hS hSs => .cons ⟨hR, hS⟩ (rel_zip hRs hSs)

/-- What is found first in related lists is related. -/
theorem rel_find? {R : α → β → Prop} {p : α → Bool} {q : β → Bool}
    (hpq : ∀ x y, R x y → p x = q y) {xs : List α} {ys : List β} (h : List.Forall₂ R xs ys) :
    Option.Rel R (xs.find? p) (ys.find? q) := by
  induction h with
  | nil => exact .none
  | @cons x y _ _ hxy _ ih =>
    rw [List.find?_cons, List.find?_cons, hpq x y hxy]
    cases q y with
    | false => exact ih
    | true => exact .some hxy

end Related

namespace ChildList

variable {R : Nat → Nat → Prop} {cs cs' : ChildList}

/-- The children have the same roles and are related, one by one. -/
def Related (R : Nat → Nat → Prop) (cs cs' : ChildList) : Prop :=
  List.Forall₂ (fun c c' => c.role = c'.role ∧ R c.node c'.node) cs cs'

theorem Related.firstUnder? (h : Related R cs cs') (r : RoleId) :
    Option.Rel R (cs.firstUnder? r) (cs'.firstUnder? r) := by
  have hfind : Option.Rel _ (cs.find? (·.role = r)) (cs'.find? (·.role = r)) :=
    rel_find? (fun c c' hc => by rw [hc.1]) h
  unfold ChildList.firstUnder?
  generalize cs.find? _ = c at hfind ⊢
  generalize cs'.find? _ = c' at hfind ⊢
  cases hfind with
  | none => exact .none
  | some hc => exact .some hc.2

theorem Related.allUnder (h : Related R cs cs') (r : RoleId) :
    List.Forall₂ R (cs.allUnder r) (cs'.allUnder r) := by
  refine List.rel_map (fun c c' hc => ?_) (List.rel_filter (fun c c' hc => ?_) h)
  · exact hc.2
  · simp [hc.1]

end ChildList

namespace Arena

variable {a b : Arena} {R : Nat → Nat → Prop} {x y : Nat}

/-! ### Lockstep -/

/-- The nodes stand for the same tree. -/
def Alike (a b : Arena) (x y : Nat) : Prop := ∃ t : Tree, t.IsAt a x ∧ t.IsAt b y

/-- Nodes that are related are alike, and their children are related. -/
structure Lockstep (a b : Arena) (R : Nat → Nat → Prop) : Prop where
  alike : ∀ {x y : Nat}, R x y → a.Alike b x y
  children : ∀ {x y : Nat} {d e : Node}, R x y → a.node? x = some d → b.node? y = some e →
    d.children.Related R e.children

namespace Lockstep

variable (h : Lockstep a b R) (hxy : R x y)

include h hxy

theorem exists_nodes : ∃ d e, a.node? x = some d ∧ b.node? y = some e ∧ d.kind = e.kind ∧
    d.children.Related R e.children := by
  obtain ⟨t, hx, hy⟩ := h.alike hxy
  obtain ⟨d, hd, hkind, -⟩ := Tree.isAt_iff.mp hx
  obtain ⟨e, he, hkind', -⟩ := Tree.isAt_iff.mp hy
  exact ⟨d, e, hd, he, hkind.trans hkind'.symm, h.children hxy hd he⟩

theorem exists_kind : ∃ k, a.kind x = .ok k ∧ b.kind y = .ok k := by
  obtain ⟨d, e, hd, he, hkind, -⟩ := h.exists_nodes hxy
  exact ⟨d.kind, kind_of_node? hd, by rw [hkind, kind_of_node? he]⟩

theorem exists_child? (r : RoleId) :
    ∃ c c', a.child? x r = .ok c ∧ b.child? y r = .ok c' ∧ Option.Rel R c c' := by
  obtain ⟨d, e, hd, he, -, hchildren⟩ := h.exists_nodes hxy
  exact ⟨_, _, child?_of_node? hd r, child?_of_node? he r, hchildren.firstUnder? r⟩

theorem exists_childrenUnder (r : RoleId) :
    ∃ cs cs', a.childrenUnder x r = .ok cs ∧ b.childrenUnder y r = .ok cs' ∧
      List.Forall₂ R cs cs' := by
  obtain ⟨d, e, hd, he, -, hchildren⟩ := h.exists_nodes hxy
  exact ⟨_, _, childrenUnder_of_node? hd r, childrenUnder_of_node? he r, hchildren.allUnder r⟩

end Lockstep

/-- The children of nodes that stand for one tree stand for its branches. -/
theorem lockstep_alike (a b : Arena) : Lockstep a b (a.Alike b) where
  alike h := h
  children h hd he := by
    obtain ⟨t, hx, hy⟩ := h
    obtain ⟨d, hd', -, hbelow⟩ := Tree.isAt_iff.mp hx
    obtain ⟨e, he', -, hbelow'⟩ := Tree.isAt_iff.mp hy
    obtain rfl := Option.some.inj (hd.symm.trans hd')
    obtain rfl := Option.some.inj (he.symm.trans he')
    refine forall₂_of_common (fun branch c c' hc hc' => ?_) hbelow hbelow'
    exact ⟨hc.1.trans hc'.1.symm, branch.2, hc.2, hc'.2⟩

/-! ### Places -/

/-- The node that is reached from `n` by taking, level by level, the child at the given position. -/
def descend (a : Arena) : NodeId → List Nat → Option NodeId
  | n, [] => some n
  | n, i :: path => do
    let d ← a.node? n
    let c ← d.children[i]?
    descend a c.node path

/-- One level further down. -/
theorem descend_append_singleton {m i : Nat} {d : Node} {c : Child} (hm : a.node? m = some d)
    (hc : d.children[i]? = some c) : ∀ {n : Nat} {path : List Nat},
      a.descend n path = some m → a.descend n (path ++ [i]) = some c.node
  | n, [], h => by
    obtain rfl : n = m := Option.some.inj h
    simp [descend, hm, hc]
  | n, j :: path, h => by
    simp only [descend, Option.bind_eq_bind, Option.bind_eq_some_iff] at h
    obtain ⟨e, he, c', hc', hrest⟩ := h
    simp only [List.cons_append, descend, he, hc', Option.bind_eq_bind, Option.bind_some]
    exact descend_append_singleton hm hc hrest

/-- The nodes are at the same place, `n` below `x` and `m` below `y`. -/
def SamePlace (a b : Arena) (x y n m : Nat) : Prop :=
  ∃ path, a.descend x path = some n ∧ b.descend y path = some m

/-- The nodes are alike, and at the same place below `x` and `y`. -/
def Peers (a b : Arena) (x y n m : Nat) : Prop := a.Alike b n m ∧ a.SamePlace b x y n m

theorem lockstep_peers (a b : Arena) (x y : Nat) : Lockstep a b (a.Peers b x y) where
  alike h := h.1
  children h hd he := by
    obtain ⟨halike, path, hx, hy⟩ := h
    have hbase := (lockstep_alike a b).children halike hd he
    refine List.forall₂_iff_get.mpr ⟨hbase.length_eq, fun i hi hi' => ?_⟩
    obtain ⟨hrole, hnodes⟩ := hbase.get hi hi'
    -- the way down to both children ends with the same position
    exact ⟨hrole, hnodes, path ++ [i], descend_append_singleton hd (List.getElem?_eq_getElem hi) hx,
      descend_append_singleton he (List.getElem?_eq_getElem hi') hy⟩

theorem Peers.refl (h : a.Alike b x y) : a.Peers b x y x y := ⟨h, [], rfl, rfl⟩

end Arena

end SyntaxForest
