import Mathlib.Tactic.Common
import SyntaxForest.Arena.Edit
import SyntaxForest.Arena.WellFormed

/-!
# What readers and writers see

Every reader of an arena starts with a look-up, so its answer is settled by the record it finds:
`kind_eq_ok_iff`, `child?_eq_ok_iff` and their like say which record that is, and the lemmas
`kind_of_node?`, `child?_of_node?` go the other way.  `place?_eq_ok_some` takes the child list of
the parent apart at the node.

Two arenas with the same look-ups are equal (`ext_node?`); the look-ups after `setParent` and
`setChildren` are `node?_setParent` and `node?_setChildren`.

The last section is about edits as programs: `after` is the arena an edit leaves behind, whether
it succeeds or not, and `Keeps I` says that an edit does not lose the property `I`.
-/

namespace SyntaxForest

namespace Arena

/-! ### Look-up -/

theorem node?_eq_some_iff_lt {a : Arena} {n : Nat} : (∃ d, a.node? n = some d) ↔ n < a.size := by
  unfold node? size
  constructor
  · rintro ⟨d, hd⟩
    by_contra h
    rw [Array.getElem?_eq_none (by omega)] at hd
    exact absurd hd (by simp)
  · intro h
    exact ⟨a.nodes[n], by simp [h]⟩

theorem lt_size_of_node? {a : Arena} {n : Nat} {d : Node} (h : a.node? n = some d) : n < a.size :=
  node?_eq_some_iff_lt.mp ⟨d, h⟩

theorem exists_node?_of_lt {a : Arena} {n : Nat} (h : n < a.size) : ∃ d, a.node? n = some d :=
  node?_eq_some_iff_lt.mpr h

theorem node?_eq_none_iff {a : Arena} {n : Nat} : a.node? n = none ↔ a.size ≤ n := by
  rw [Option.eq_none_iff_forall_ne_some]
  constructor
  · intro h
    by_contra hlt
    obtain ⟨d, hd⟩ := exists_node?_of_lt (Nat.lt_of_not_le hlt)
    exact h d hd
  · intro h d hd
    have := lt_size_of_node? hd
    omega

/-- Arenas with the same look-ups are the same. -/
theorem ext_node? {a b : Arena} (h : ∀ n : Nat, a.node? n = b.node? n) : a = b := by
  obtain ⟨xs⟩ := a
  obtain ⟨ys⟩ := b
  congr 1
  exact Array.ext_getElem? h

theorem node_eq_ok_iff {a : Arena} {n : Nat} {d : Node} :
    a.node n = .ok d ↔ a.node? n = some d := by
  unfold node
  cases h : a.node? n <;> simp

theorem node_of_node? {a : Arena} {n : Nat} {d : Node} (h : a.node? n = some d) :
    a.node n = .ok d :=
  node_eq_ok_iff.mpr h

/-! ### Readers -/

/-- A reader that computes its answer from one record succeeds exactly if the record is there. -/
theorem node_map_eq_ok_iff {α : Type} {a : Arena} {n : Nat} {f : Node → α} {v : α} :
    (do return f (← a.node n) : Except Fault α) = .ok v ↔ ∃ d, a.node? n = some d ∧ f d = v := by
  unfold node
  cases h : a.node? n with
  | none => simp [bind, Except.bind]
  | some d => simp [bind, Except.bind, pure, Except.pure]

theorem kind_eq_ok_iff {a : Arena} {n : Nat} {k : Kind} :
    a.kind n = .ok k ↔ ∃ d, a.node? n = some d ∧ d.kind = k :=
  node_map_eq_ok_iff

theorem parent?_eq_ok_iff {a : Arena} {n : Nat} {p : Option NodeId} :
    a.parent? n = .ok p ↔ ∃ d, a.node? n = some d ∧ d.parent = p :=
  node_map_eq_ok_iff

theorem children_eq_ok_iff {a : Arena} {n : Nat} {cs : ChildList} :
    a.children n = .ok cs ↔ ∃ d, a.node? n = some d ∧ d.children = cs :=
  node_map_eq_ok_iff

theorem child?_eq_ok_iff {a : Arena} {n : Nat} {r : RoleId} {c : Option NodeId} :
    a.child? n r = .ok c ↔ ∃ d, a.node? n = some d ∧ d.children.firstUnder? r = c := by
  unfold child? children node
  cases h : a.node? n <;> simp [bind, Except.bind, pure, Except.pure]

theorem childrenUnder_eq_ok_iff {a : Arena} {n : Nat} {r : RoleId} {cs : List NodeId} :
    a.childrenUnder n r = .ok cs ↔ ∃ d, a.node? n = some d ∧ d.children.allUnder r = cs := by
  unfold childrenUnder children node
  cases h : a.node? n <;> simp [bind, Except.bind, pure, Except.pure]

section OfNode

variable {a : Arena} {n : Nat} {d : Node}

theorem kind_of_node? (h : a.node? n = some d) : a.kind n = .ok d.kind :=
  kind_eq_ok_iff.mpr ⟨d, h, rfl⟩

theorem children_of_node? (h : a.node? n = some d) : a.children n = .ok d.children :=
  children_eq_ok_iff.mpr ⟨d, h, rfl⟩

theorem child?_of_node? (h : a.node? n = some d) (r : RoleId) :
    a.child? n r = .ok (d.children.firstUnder? r) :=
  child?_eq_ok_iff.mpr ⟨d, h, rfl⟩

theorem child?_of_none (h : a.node? n = none) (r : RoleId) :
    a.child? n r = .error (.outOfRange a.size n) := by
  rw [child?, children, node, h]
  rfl

theorem childrenUnder_of_node? (h : a.node? n = some d) (r : RoleId) :
    a.childrenUnder n r = .ok (d.children.allUnder r) :=
  childrenUnder_eq_ok_iff.mpr ⟨d, h, rfl⟩

end OfNode

/-! Nodes that are there can be read. -/

section OfLt

variable {a : Arena} {n : Nat}

theorem exists_kind_eq_ok (hn : n < a.size) : ∃ k, a.kind n = .ok k := by
  obtain ⟨d, hd⟩ := exists_node?_of_lt hn
  exact ⟨_, kind_of_node? hd⟩

theorem exists_child?_eq_ok (hn : n < a.size) (r : RoleId) : ∃ c, a.child? n r = .ok c := by
  obtain ⟨d, hd⟩ := exists_node?_of_lt hn
  exact ⟨_, child?_of_node? hd r⟩

theorem exists_childrenUnder_eq_ok (hn : n < a.size) (r : RoleId) :
    ∃ cs, a.childrenUnder n r = .ok cs := by
  obtain ⟨d, hd⟩ := exists_node?_of_lt hn
  exact ⟨_, childrenUnder_of_node? hd r⟩

end OfLt

/-- A place found for `n` takes the child list of its parent apart at `n`. -/
theorem place?_eq_ok_some {a : Arena} {n : Nat} {place : Place}
    (h : a.place? n = .ok (some place)) :
    ∃ e, a.node? place.parent = some e ∧
      e.children = place.before ++ ⟨place.role, n⟩ :: place.after := by
  unfold place? at h
  cases hp : a.parent? n with
  | error e => rw [hp] at h; cases h
  | ok p =>
    cases p with
    | none => rw [hp] at h; cases h
    | some p =>
      cases hcs : a.children p with
      | error e => rw [hp] at h; simp [bind, Except.bind, hcs] at h
      | ok cs =>
        rw [hp] at h
        simp only [bind, Except.bind, hcs, pure, Except.pure, Except.ok.injEq] at h
        rw [Option.map_eq_some_iff] at h
        obtain ⟨⟨before, role, after⟩, hs, rfl⟩ := h
        obtain ⟨e, he, rfl⟩ := children_eq_ok_iff.mp hcs
        exact ⟨e, he, ChildList.split?_eq_some hs⟩

/-- A root has no place. -/
theorem place?_of_root {a : Arena} {n : Nat} (h : a.parent? n = .ok none) :
    a.place? n = .ok none := by
  rw [place?, h]
  rfl

theorem roleOf?_of_place? {a : Arena} {n : Nat} {place : Place}
    (h : a.place? n = .ok (some place)) : a.roleOf? n = .ok (some place.role) := by
  rw [roleOf?, h]
  rfl

theorem exists_listed_of_roleOf? {a : Arena} {n : Nat} {r : RoleId}
    (h : a.roleOf? n = .ok (some r)) :
    ∃ p e, a.node? p = some e ∧ (⟨r, n⟩ : Child) ∈ e.children := by
  cases hplace : a.place? n with
  | error e =>
    rw [roleOf?, hplace] at h
    cases h
  | ok place =>
    rw [roleOf?, hplace] at h
    cases place with
    | none => cases h
    | some place =>
      cases h
      obtain ⟨e, he, hsplit⟩ := place?_eq_ok_some hplace
      exact ⟨place.parent, e, he, by simp [hsplit]⟩

/-! ### Writers -/

@[simp] theorem size_setParent (a : Arena) (n : NodeId) (p : Option NodeId) :
    (a.setParent n p).size = a.size :=
  size_update a n _

@[simp] theorem size_setChildren (a : Arena) (n : NodeId) (f : ChildList → ChildList) :
    (a.setChildren n f).size = a.size :=
  size_update a n _

@[simp] theorem size_setKind (a : Arena) (n : NodeId) (k : Kind) : (a.setKind n k).size = a.size :=
  size_update a n _

@[simp] theorem size_link (a : Arena) (n : NodeId) (r : RoleId) (c : NodeId) :
    (a.link n r c).size = a.size := by
  rw [link, size_setParent, size_setChildren]

theorem node?_setParent (a : Arena) (n m : Nat) (p : Option NodeId) :
    (a.setParent n p).node? m =
      if n = m then (a.node? m).map fun d => { d with parent := p } else a.node? m :=
  node?_update a n m _

theorem node?_setChildren (a : Arena) (n m : Nat) (f : ChildList → ChildList) :
    (a.setChildren n f).node? m =
      if n = m then (a.node? m).map fun d => { d with children := f d.children }
      else a.node? m :=
  node?_update a n m _

theorem node?_setKind (a : Arena) (n m : Nat) (k : Kind) :
    (a.setKind n k).node? m =
      if n = m then (a.node? m).map fun d => { d with kind := k } else a.node? m :=
  node?_update a n m _

theorem children_setKind (a : Arena) (n : Nat) (k : Kind) (m : NodeId) :
    (a.setKind n k).children m = a.children m := by
  cases hm : a.node? m with
  | none =>
    have hm' : (a.setKind n k).node? m = none := by
      rw [node?_setKind, hm]
      split_ifs <;> rfl
    simp [children, node, hm, hm', size_setKind]
  | some d =>
    have hm' : ∃ e, (a.setKind n k).node? m = some e ∧ e.children = d.children := by
      rw [node?_setKind, hm]
      split_ifs
      · exact ⟨_, rfl, rfl⟩
      · exact ⟨d, rfl, rfl⟩
    obtain ⟨e, he, hchildren⟩ := hm'
    rw [children_of_node? he, children_of_node? hm, hchildren]

theorem kind_setKind_self {a : Arena} {n : Nat} {k : Kind} (hk : a.kind n = .ok k) (k' : Kind) :
    (a.setKind n k').kind n = .ok k' := by
  obtain ⟨d, hd, -⟩ := kind_eq_ok_iff.mp hk
  refine kind_of_node? (d := { d with kind := k' }) ?_
  rw [node?_setKind, if_pos rfl, hd]
  rfl

theorem node?_push_self (a : Arena) (k : Kind) : (a.push k).node? a.size = some { kind := k } := by
  rw [node?_push, if_pos rfl]

theorem node?_push_of_ne (a : Arena) (k : Kind) {m : Nat} (h : m ≠ a.size) :
    (a.push k).node? m = a.node? m := by
  rw [node?_push, if_neg h]

/-- Allocating a node leaves the records there are alone. -/
theorem node?_push_of_some {a : Arena} {k : Kind} {m : Nat} {d : Node} (h : a.node? m = some d) :
    (a.push k).node? m = some d := by
  rw [node?_push_of_ne a k (by have := lt_size_of_node? h; omega), h]

end Arena

/-! ### Edits as programs -/

namespace Edit

variable {α β : Type}

/-- The arena an edit leaves behind, whether it succeeds or fails. -/
def after (x : Edit α) (a : Arena) : Arena :=
  match x a with
  | .ok _ b => b
  | .error _ b => b

theorem after_of_ok {x : Edit α} {a b : Arena} {v : α} (h : x a = .ok v b) : x.after a = b := by
  rw [after, h]

theorem after_of_error {x : Edit α} {a b : Arena} {e : Fault} (h : x a = .error e b) :
    x.after a = b := by
  rw [after, h]

@[simp] theorem after_look (f : Arena → Except Fault α) (a : Arena) : (look f).after a = a := by
  unfold after look settled
  cases f a <;> rfl

theorem after_bind_of_ok {x : Edit α} {f : α → Edit β} {a b : Arena} {v : α}
    (h : x a = .ok v b) : (x >>= f).after a = (f v).after b := by
  rw [after, bind_of_ok h, after]

theorem after_bind_of_error {x : Edit α} {f : α → Edit β} {a b : Arena} {e : Fault}
    (h : x a = .error e b) : (x >>= f).after a = b :=
  after_of_error (bind_of_error h)

/-- The edit does not lose the property `I`, whether it succeeds or fails. -/
def Keeps (I : Arena → Prop) (x : Edit α) : Prop := ∀ a, I a → I (x.after a)

variable {I : Arena → Prop}

theorem keeps_pure (v : α) : Keeps I (pure v : Edit α) := fun _ h => h

theorem keeps_throw (e : Fault) : Keeps I (throw e : Edit α) := fun _ h => h

theorem keeps_look (f : Arena → Except Fault α) : Keeps I (look f) := by
  intro a h
  rwa [after_look]

/-- A sequence leaves behind what its second step does, or what its first step does if that
fails. -/
theorem after_bind {x : Edit α} {f : α → Edit β} {a : Arena}
    (hok : ∀ v b, x a = .ok v b → I ((f v).after b)) (herror : ∀ e b, x a = .error e b → I b) :
    I ((x >>= f).after a) := by
  cases hr : x a with
  | ok v b => rw [after_bind_of_ok hr]; exact hok v b hr
  | error e b => rw [after_bind_of_error hr]; exact herror e b hr

/-- What was read from the arena may be used about the arena in the rest of the edit. -/
theorem after_look_bind {f : Arena → Except Fault α} {g : α → Edit β} {a : Arena} (ha : I a)
    (h : ∀ v, f a = .ok v → I ((g v).after a)) : I ((look f >>= g).after a) := by
  cases hr : f a with
  | ok v => rw [after_bind_of_ok (look_of_ok hr)]; exact h v hr
  | error e => rwa [after_bind_of_error (look_of_error hr)]

theorem keeps_bind {x : Edit α} {f : α → Edit β} (hx : Keeps I x) (hf : ∀ v, Keeps I (f v)) :
    Keeps I (x >>= f) := by
  intro a h
  refine after_bind (fun v b hr => hf v b ?_) fun e b hr => ?_
  · rw [← after_of_ok hr]; exact hx a h
  · rw [← after_of_error hr]; exact hx a h

theorem keeps_forM {x : α → Edit Unit} (hx : ∀ v, Keeps I (x v)) :
    ∀ vs : List α, Keeps I (vs.forM x)
  | [] => keeps_pure _
  | v :: vs => keeps_bind (hx v) fun _ => keeps_forM hx vs

/-- A successful sequence consists of two successful steps. -/
theorem bind_eq_ok {x : Edit α} {f : α → Edit β} {a c : Arena} {w : β}
    (h : (x >>= f) a = .ok w c) : ∃ v b, x a = .ok v b ∧ f v b = .ok w c := by
  cases hr : x a with
  | ok v b => exact ⟨v, b, rfl, by rw [← h, bind_of_ok hr]⟩
  | error e b => rw [bind_of_error hr] at h; cases h

theorem look_eq_ok {f : Arena → Except Fault α} {a b : Arena} {v : α} (h : look f a = .ok v b) :
    f a = .ok v ∧ b = a := by
  cases hr : f a with
  | ok w =>
    rw [look_of_ok hr] at h
    cases h
    exact ⟨rfl, rfl⟩
  | error e => rw [look_of_error hr] at h; cases h

end Edit

end SyntaxForest
